import Stencil.Proofs.Render.Keeping
import Stencil.Proofs.View.Origin
import Stencil.Render.Include

/-!
# Environs of a view

Rendering the nodes of a view can be said without saying how expressions are evaluated and how
includes are rendered: the nodes hand both to what is around them, and put together what they
get back. So a relation between renders and other computations that holds of everything around
the nodes, and goes along with steps, holds of rendering the nodes.
-/

namespace Stencil

/-! # Renders with any evaluator -/

/-- What rendering the nodes of a view asks of what is around it. -/
structure Environs (m : Type → Type) where
  valueOf : Nat → String → m Value
  textOf : Nat → String → m (Option Text)
  bindParts : Nat → Value → List (String × Part) → m Unit
  beginLoop : String → String → Value → m Loop
  nextRound : Loop → m (Option (Round × Loop))
  openRound : Nat → Round → m Nat
  /-- How many rounds a loop is followed beyond the number of elements at first. -/
  patience : Nat
  unending : m Text
  /-- The bindings in the value of an include's data expression. -/
  bindings : String → Value → m (Entries Value)
  /-- Renders an include, whose data is known. -/
  enter : Inclusion → Entries Value → m Text

namespace Environs

variable {m : Type → Type} [Monad m] (around : Environs m)

def rounds (body : Nat → m Text) (scope : Nat) : Nat → Loop → m Text
  | 0, loop => do
      match ← around.nextRound loop with
      | none => return ""
      | some _ => around.unending
  | left + 1, loop => do
      match ← around.nextRound loop with
      | none => return ""
      | some (round, later) => do
          let inner ← around.openRound scope round
          let first ← body inner
          let others ← rounds body scope left later
          return first ++ others

mutual

def node (scope : Nat) : Node → m Text
  | .text _ text => return text
  | .interpolation _ source => do
      return (← around.textOf scope source).getD ""
  | .shorthand _ path => do
      return (← around.textOf scope path).getD ("@" ++ path)
  | .declaration _ pattern source => do
      let value ← around.valueOf scope source
      around.bindParts scope value pattern.parts
      return ""
  | .conditional _ arms otherwise => do
      match ← branches scope arms with
      | some text => return text
      | none =>
          match otherwise with
          | some body => all scope body
          | none => return ""
  | .loop _ item index source body => do
      let collection ← around.valueOf scope source
      let loop ← around.beginLoop item index collection
      around.rounds (fun inner => all inner body) scope (loop.count + around.patience) loop
  | .inclusion line path none => around.enter ⟨line, path, none, scope⟩ []
  | .inclusion line path (some source) => do
      let value ← around.valueOf scope source
      let data ← around.bindings source value
      around.enter ⟨line, path, some source, scope⟩ data

def all (scope : Nat) : List Node → m Text
  | [] => return ""
  | first :: rest => do
      let text ← node scope first
      let others ← all scope rest
      return text ++ others

def branches (scope : Nat) : List (Branch Node) → m (Option Text)
  | [] => return none
  | branch :: rest => do
      let condition ← around.valueOf scope branch.condition
      if condition.truthy then
        let text ← all scope branch.body
        return some text
      else branches scope rest

end

end Environs

/-! # Includes whose data is known -/

/-- The bindings in the value of an include's data expression: none if it is no mapping. -/
def givenBindings (source : String) (value : Value) : Rendering (Entries Value) := do
  match (← get).store.entries? value with
  | some entries => return entries
  | none => do
      Rendering.note (.expressionIgnored source "include data is not a mapping")
      return []

def includeWith (setup : RenderSetup) (left : Nat) (site : Site) (inclusion : Inclusion)
    (data : Entries Value) : Rendering Text := do
  match ViewPath.resolve setup.source.viewsType inclusion.path site.view with
  | .error e => do
      noteMissing site inclusion e
      return ""
  | .ok path =>
      match left with
      | 0 => rejectCycle site inclusion path
      | left + 1 =>
          if site.stack.contains path then rejectCycle site inclusion path
          else
            match ← includeNodes setup site inclusion path with
            | none => return ""
            | some nodes => do
                Rendering.addInclude path
                let scope ← Rendering.onStore fun σ => σ.child inclusion.scope data none
                renderAll setup.host (renderInclude setup left (site.enter path)) scope nodes

section Includes

variable (setup : RenderSetup) (left : Nat) (site : Site)

theorem renderInclude_eq_bind (inclusion : Inclusion) :
    renderInclude setup left site inclusion =
      includeData setup.host inclusion >>= includeWith setup left site inclusion := by
  cases left with
  | zero =>
      rw [renderInclude, includeTarget, bind_assoc]
      congr 1
      funext data
      rw [includeWith]
      cases ViewPath.resolve setup.source.viewsType inclusion.path site.view with
      | ok path => simp
      | error e => simp
  | succ left =>
      rw [renderInclude, includeTarget, bind_assoc]
      congr 1
      funext data
      rw [includeWith]
      cases ViewPath.resolve setup.source.viewsType inclusion.path site.view with
      | ok path => exact pure_bind _ _
      | error e => simp

theorem renderInclude_none (line scope : Nat) (path : Text) :
    renderInclude setup left site ⟨line, path, none, scope⟩ =
      includeWith setup left site ⟨line, path, none, scope⟩ [] := by
  rw [renderInclude_eq_bind, includeData]
  exact pure_bind _ _

theorem renderInclude_some (line scope : Nat) (path : Text) (source : String) :
    renderInclude setup left site ⟨line, path, some source, scope⟩ =
      Rendering.valueOf setup.host scope source >>= fun value =>
        givenBindings source value >>=
          includeWith setup left site ⟨line, path, some source, scope⟩ := by
  rw [renderInclude_eq_bind, includeData, bind_assoc]
  rfl

end Includes

/-! # References -/

def ReferencesIn (allowed : String → Prop) (nodes : List Node) : Prop :=
  ∀ node ∈ nodes, ∀ source ∈ node.ownReferences, allowed source

section References

variable {allowed : String → Prop} {line : Nat} {arms : List (Branch Node)}

theorem ReferencesIn.conditions {otherwise : Option (List Node)}
    (h : ReferencesIn allowed (Node.conditional line arms otherwise).walk) :
    ∀ branch ∈ arms, allowed branch.condition := by
  intro branch hbranch
  refine h _ (Node.mem_walk_self _) branch.condition ?_
  exact List.mem_map.mpr ⟨branch, hbranch, rfl⟩

theorem ReferencesIn.bodies {otherwise : Option (List Node)}
    (h : ReferencesIn allowed (Node.conditional line arms otherwise).walk) :
    ReferencesIn allowed (Node.walkBranches arms) := by
  intro inner hinner
  exact h inner (Node.mem_walk_conditional.mpr (.inr (.inl (Node.mem_walkBranches.mp hinner))))

theorem ReferencesIn.otherwise {body : List Node}
    (h : ReferencesIn allowed (Node.conditional line arms (some body)).walk) :
    ReferencesIn allowed (Node.walkAll body) := by
  intro inner hinner
  exact h inner (Node.mem_walk_conditional.mpr (.inr (.inr ⟨body, rfl, hinner⟩)))

theorem ReferencesIn.loop {item index source : String} {body : List Node}
    (h : ReferencesIn allowed (Node.loop line item index source body).walk) :
    ReferencesIn allowed (Node.walkAll body) := by
  intro inner hinner
  exact h inner (Node.mem_walk_loop.mpr (.inr hinner))

theorem ReferencesIn.left {nodes others : List Node}
    (h : ReferencesIn allowed (nodes ++ others)) : ReferencesIn allowed nodes := by
  intro inner hinner
  exact h inner (List.mem_append_left _ hinner)

theorem ReferencesIn.right {nodes others : List Node}
    (h : ReferencesIn allowed (nodes ++ others)) : ReferencesIn allowed others := by
  intro inner hinner
  exact h inner (List.mem_append_right _ hinner)

end References

/-! # Environs that go along with a render -/

/--
What takes a relation between computations and renders from what is around the nodes of a view
to the nodes: it goes along with steps, and holds of all that the nodes ask of their environs.
-/
structure Environs.Matches {m : Type → Type} [Monad m] (around : Environs m)
    (Matched : ∀ α : Type, m α → Rendering α → Prop) (allowed : String → Prop)
    (setup : RenderSetup) (left : Nat) (site : Site) : Prop where
  pure {α : Type} (a : α) : Matched α (Pure.pure a) (Pure.pure a)
  bind {α β : Type} {first : m α} {action : Rendering α} {next : α → m β}
    {after : α → Rendering β} (hfirst : Matched α first action)
    (hnext : ∀ a, Matched β (next a) (after a)) : Matched β (first >>= next) (action >>= after)
  valueOf (scope : Nat) {source : String} (hsource : allowed source) :
    Matched Value (around.valueOf scope source) (Rendering.valueOf setup.host scope source)
  textOf (scope : Nat) {source : String} (hsource : allowed source) :
    Matched (Option Text) (around.textOf scope source)
      (Rendering.textOf setup.host scope source)
  bindParts (scope : Nat) (value : Value) (parts : List (String × Part)) :
    Matched Unit (around.bindParts scope value parts) (Stencil.bindParts scope value parts)
  beginLoop (item index : String) (collection : Value) :
    Matched Loop (around.beginLoop item index collection)
      (Rendering.onStore fun σ => (Loop.begin σ item index collection, σ))
  nextRound (loop : Loop) :
    Matched (Option (Round × Loop)) (around.nextRound loop) (Stencil.nextRound loop)
  openRound (scope : Nat) (round : Round) :
    Matched Nat (around.openRound scope round) (Stencil.openRound scope round)
  patience : around.patience = setup.host.patience
  unending : Matched Text around.unending (throw .unending)
  bindings (source : String) (value : Value) :
    Matched (Entries Value) (around.bindings source value) (givenBindings source value)
  enter (inclusion : Inclusion) (data : Entries Value) :
    Matched Text (around.enter inclusion data) (includeWith setup left site inclusion data)

namespace Environs.Matches

variable {m : Type → Type} [Monad m] {around : Environs m}
  {Matched : ∀ α : Type, m α → Rendering α → Prop} {allowed : String → Prop}
  {setup : RenderSetup} {left : Nat} {site : Site}
  (h : around.Matches Matched allowed setup left site)

include h

theorem rounds {body : Nat → m Text} {inner : Nat → Rendering Text}
    (hbody : ∀ scope, Matched Text (body scope) (inner scope)) (scope left : Nat) (loop : Loop) :
    Matched Text (around.rounds body scope left loop) (renderRounds inner scope left loop) := by
  induction left generalizing loop with
  | zero =>
      rw [Environs.rounds, renderRounds]
      refine h.bind (h.nextRound loop) fun found => ?_
      cases found with
      | none => exact h.pure _
      | some found => exact h.unending
  | succ left ih =>
      rw [Environs.rounds, renderRounds]
      refine h.bind (h.nextRound loop) fun found => ?_
      cases found with
      | none => exact h.pure _
      | some found =>
          refine h.bind (h.openRound scope found.1) fun child => ?_
          refine h.bind (hbody child) fun first => ?_
          exact h.bind (ih found.2) fun others => h.pure _

mutual

theorem node :
    (node : Node) → (scope : Nat) → ReferencesIn allowed node.walk →
      Matched Text (around.node scope node)
        (renderNode setup.host (renderInclude setup left site) scope node)
  | .text _ text, scope, hnode => by
      rw [Environs.node, renderNode]
      exact h.pure _
  | .interpolation line source, scope, hnode => by
      have hsource := hnode _ (Node.mem_walk_self _) source (by simp [Node.ownReferences])
      rw [Environs.node, renderNode]
      exact h.bind (h.textOf scope hsource) fun text => h.pure _
  | .shorthand line path, scope, hnode => by
      have hpath := hnode _ (Node.mem_walk_self _) path (by simp [Node.ownReferences])
      rw [Environs.node, renderNode]
      exact h.bind (h.textOf scope hpath) fun text => h.pure _
  | .declaration line pattern source, scope, hnode => by
      have hsource := hnode _ (Node.mem_walk_self _) source (by simp [Node.ownReferences])
      rw [Environs.node, renderNode]
      refine h.bind (h.valueOf scope hsource) fun value => ?_
      exact h.bind (h.bindParts scope value _) fun _ => h.pure _
  | .conditional line arms none, scope, hnode => by
      have harms := branches arms scope hnode.conditions hnode.bodies
      rw [Environs.node, renderNode]
      refine h.bind harms fun chosen => ?_
      cases chosen <;> exact h.pure _
  | .conditional line arms (some body), scope, hnode => by
      have harms := branches arms scope hnode.conditions hnode.bodies
      rw [Environs.node, renderNode]
      refine h.bind harms fun chosen => ?_
      cases chosen with
      | some text => exact h.pure _
      | none => exact all body scope hnode.otherwise
  | .loop line item index source body, scope, hnode => by
      have hsource := hnode _ (Node.mem_walk_self _) source (by simp [Node.ownReferences])
      rw [Environs.node, renderNode]
      refine h.bind (h.valueOf scope hsource) fun collection => ?_
      refine h.bind (h.beginLoop item index collection) fun loop => ?_
      rw [h.patience]
      exact h.rounds (fun inner => all body inner hnode.loop) scope _ loop
  | .inclusion line path none, scope, hnode => by
      rw [Environs.node, renderNode, renderInclude_none]
      exact h.enter _ _
  | .inclusion line path (some source), scope, hnode => by
      have hsource := hnode _ (Node.mem_walk_self _) source (by simp [Node.ownReferences])
      rw [Environs.node, renderNode, renderInclude_some]
      refine h.bind (h.valueOf scope hsource) fun value => ?_
      exact h.bind (h.bindings source value) fun data => h.enter _ _

theorem all :
    (nodes : List Node) → (scope : Nat) → ReferencesIn allowed (Node.walkAll nodes) →
      Matched Text (around.all scope nodes)
        (renderAll setup.host (renderInclude setup left site) scope nodes)
  | [], scope, hnodes => by
      rw [Environs.all, renderAll]
      exact h.pure _
  | first :: rest, scope, hnodes => by
      rw [Environs.all, renderAll]
      refine h.bind (node first scope hnodes.left) fun text => ?_
      exact h.bind (all rest scope hnodes.right) fun others => h.pure _

theorem branches :
    (arms : List (Branch Node)) → (scope : Nat) →
      (∀ branch ∈ arms, allowed branch.condition) →
      ReferencesIn allowed (Node.walkBranches arms) →
      Matched (Option Text) (around.branches scope arms)
        (renderBranches setup.host (renderInclude setup left site) scope arms)
  | [], scope, hconditions, harms => by
      rw [Environs.branches, renderBranches]
      exact h.pure _
  | branch :: rest, scope, hconditions, harms => by
      rw [Environs.branches, renderBranches]
      refine h.bind (h.valueOf scope (hconditions branch List.mem_cons_self)) fun condition => ?_
      cases condition.truthy with
      | true => exact h.bind (all branch.body scope harms.left) fun text => h.pure _
      | false =>
          refine branches rest scope ?_ harms.right
          intro other hother
          exact hconditions other (List.mem_cons_of_mem _ hother)

end

end Environs.Matches

end Stencil
