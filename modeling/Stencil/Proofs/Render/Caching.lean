import Stencil.Proofs.Render.Expanding

/-!
# Renders without the cache

A current cache only saves work. A render that has one takes the same course without it: it
ends in the same way, and what it leaves behind differs in nothing but the cache, which is
still current.
-/

namespace Stencil

def RenderState.uncached (s : RenderState) : RenderState :=
  { s with cache := none }

namespace Rendering

/-- Whether a run takes the same course without the cache, which it keeps current. -/
structure RunsAlike {α : Type} (source : ViewSource) (action : Rendering α) (s : RenderState) :
    Prop where
  run : action s.uncached = ((action s).1, (action s).2.uncached)
  current : CacheCurrent source (action s).2.cache
  kept : (action s).2.cache.isSome = s.cache.isSome

def IgnoresCache {α : Type} (source : ViewSource) (action : Rendering α) : Prop :=
  ∀ s : RenderState, CacheCurrent source s.cache → RunsAlike source action s

section Steps

variable {α β : Type} {source : ViewSource}

theorem IgnoresCache.blind {action : Rendering α}
    (h : ∀ s cache, action { s with cache := cache } =
      ((action s).1, { (action s).2 with cache := cache })) : IgnoresCache source action := by
  intro s hs
  have hself : (action s).2.cache = s.cache := congrArg (fun run => run.2.cache) (h s s.cache)
  refine ⟨h s none, ?_, ?_⟩
  · rwa [hself]
  · rw [hself]

theorem IgnoresCache.pure (a : α) : IgnoresCache source (Pure.pure a : Rendering α) :=
  .blind fun _ _ => rfl

theorem IgnoresCache.throw (trouble : Trouble) :
    IgnoresCache source (throw trouble : Rendering α) :=
  .blind fun _ _ => rfl

theorem IgnoresCache.ofExcept (result : Except Trouble α) :
    IgnoresCache source (ofExcept result) :=
  .blind fun _ _ => rfl

theorem IgnoresCache.note (event : Event) : IgnoresCache source (note event) :=
  .blind fun _ _ => rfl

theorem IgnoresCache.addInclude (path : Text) : IgnoresCache source (addInclude path) :=
  .blind fun _ _ => rfl

theorem IgnoresCache.onStore (f : Store → α × Store) : IgnoresCache source (onStore f) :=
  .blind fun _ _ => rfl

theorem IgnoresCache.bind {action : Rendering α} (haction : IgnoresCache source action)
    {next : α → Rendering β} (hnext : ∀ a, IgnoresCache source (next a)) :
    IgnoresCache source (action >>= next) := by
  intro s hs
  rcases haction s hs with ⟨hrun, hcurrent, hkept⟩
  cases hresult : action s with
  | mk result after =>
      rw [hresult] at hrun hcurrent hkept
      cases result with
      | error trouble =>
          have hbind : (action >>= next) s = (.error trouble, after) := by rw [bind_def, hresult]
          constructor
          · rw [bind_def, hrun, hbind]
          · rw [hbind]
            exact hcurrent
          · rw [hbind]
            exact hkept
      | ok a =>
          have hbind : (action >>= next) s = next a after := by rw [bind_def, hresult]
          rcases hnext a after hcurrent with ⟨hlast, hlastCurrent, hlastKept⟩
          constructor
          · rw [bind_def, hrun, hbind]
            exact hlast
          · rwa [hbind]
          · rw [hbind, hlastKept]
            exact hkept

theorem IgnoresCache.read {next : RenderState → Rendering β}
    (hblind : ∀ s, next s.uncached = next s) (hnext : ∀ s, IgnoresCache source (next s)) :
    IgnoresCache source (get >>= next) := by
  intro s hs
  have hget : ∀ s, (get >>= next : Rendering β) s = next s s := fun _ => rfl
  rcases hnext s s hs with ⟨hrun, hcurrent, hkept⟩
  constructor
  · rw [hget, hget, hblind]
    exact hrun
  · exact hcurrent
  · exact hkept

theorem IgnoresCache.attempt {action : Rendering α} (haction : IgnoresCache source action) :
    IgnoresCache source (attempt action) := by
  intro s hs
  rcases haction s hs with ⟨hrun, hcurrent, hkept⟩
  refine ⟨?_, hcurrent, hkept⟩
  rw [Rendering.attempt, hrun]
  rfl

theorem IgnoresCache.recover (expression : String) (action : Evaluation α) (instead : α) :
    IgnoresCache source (recover expression action instead) := by
  refine (IgnoresCache.onStore action).bind fun result => ?_
  cases result with
  | ok a => exact .pure a
  | error failure =>
      dsimp only
      cases failure.told with
      | ok text => exact (IgnoresCache.note _).bind fun _ => .pure instead
      | error again => exact .throw _

theorem IgnoresCache.valueOf (host : Host) (scope : Nat) (expression : String) :
    IgnoresCache source (valueOf host scope expression) :=
  .recover expression _ _

theorem IgnoresCache.textOf (host : Host) (scope : Nat) (expression : String) :
    IgnoresCache source (textOf host scope expression) :=
  .recover expression _ _

theorem IgnoresCache.fetch (path : Text) : IgnoresCache source (fetch source path) := by
  intro s hs
  rcases fetch_current hs path with ⟨cache, hrun, hcurrent⟩
  constructor
  · rw [hrun]
    rfl
  · rwa [hrun]
  · rcases s with ⟨store, _ | kept, events, includes⟩
    · rfl
    · rfl

/-! # Nodes -/

theorem IgnoresCache.bindPart (scope : Nat) (value : Value) (name : String) (part : Part) :
    IgnoresCache source (bindPart scope value name part) := by
  apply IgnoresCache.blind
  intro s cache
  unfold Stencil.bindPart
  cases part.take s.store value <;> rfl

theorem IgnoresCache.bindParts (scope : Nat) (value : Value) (parts : List (String × Part)) :
    IgnoresCache source (bindParts scope value parts) := by
  induction parts with
  | nil => exact .pure ()
  | cons entry rest ih => exact (IgnoresCache.bindPart scope value _ _).bind fun _ => ih

theorem IgnoresCache.renderRounds {body : Nat → Rendering Text}
    (hbody : ∀ inner, IgnoresCache source (body inner)) (scope left : Nat) (loop : Loop) :
    IgnoresCache source (renderRounds body scope left loop) := by
  induction left generalizing loop with
  | zero =>
      refine (IgnoresCache.onStore _).bind fun found => ?_
      cases found with
      | none => exact .pure _
      | some found => exact .throw _
  | succ left ih =>
      refine (IgnoresCache.onStore _).bind fun found => ?_
      cases found with
      | none => exact .pure _
      | some found =>
          refine (IgnoresCache.onStore _).bind fun inner => ?_
          refine (hbody inner).bind fun first => ?_
          exact (ih found.2).bind fun others => .pure _

variable {host : Host} {enter : Inclusion → Rendering Text}

mutual

theorem IgnoresCache.renderNode (henter : ∀ inclusion, IgnoresCache source (enter inclusion)) :
    (node : Node) → (scope : Nat) → IgnoresCache source (renderNode host enter scope node)
  | .text _ _, scope => by
      rw [Stencil.renderNode]
      exact .pure _
  | .interpolation _ expression, scope => by
      rw [Stencil.renderNode]
      exact (IgnoresCache.textOf host scope expression).bind fun _ => .pure _
  | .shorthand _ path, scope => by
      rw [Stencil.renderNode]
      exact (IgnoresCache.textOf host scope path).bind fun _ => .pure _
  | .declaration _ pattern expression, scope => by
      rw [Stencil.renderNode]
      refine (IgnoresCache.valueOf host scope expression).bind fun value => ?_
      exact (IgnoresCache.bindParts scope value _).bind fun _ => .pure _
  | .conditional _ branches none, scope => by
      rw [Stencil.renderNode]
      refine (IgnoresCache.renderBranches henter branches scope).bind fun chosen => ?_
      cases chosen <;> exact .pure _
  | .conditional _ branches (some body), scope => by
      rw [Stencil.renderNode]
      refine (IgnoresCache.renderBranches henter branches scope).bind fun chosen => ?_
      cases chosen with
      | some text => exact .pure _
      | none => exact IgnoresCache.renderAll henter body scope
  | .loop _ item index expression body, scope => by
      rw [Stencil.renderNode]
      refine (IgnoresCache.valueOf host scope expression).bind fun collection => ?_
      refine (IgnoresCache.onStore _).bind fun loop => ?_
      exact .renderRounds (fun inner => IgnoresCache.renderAll henter body inner) scope _ loop
  | .inclusion line path data, scope => by
      rw [Stencil.renderNode]
      exact henter _

theorem IgnoresCache.renderAll (henter : ∀ inclusion, IgnoresCache source (enter inclusion)) :
    (nodes : List Node) → (scope : Nat) →
      IgnoresCache source (renderAll host enter scope nodes)
  | [], scope => by
      rw [Stencil.renderAll]
      exact .pure _
  | node :: rest, scope => by
      rw [Stencil.renderAll]
      refine (IgnoresCache.renderNode henter node scope).bind fun first => ?_
      exact (IgnoresCache.renderAll henter rest scope).bind fun others => .pure _

theorem IgnoresCache.renderBranches
    (henter : ∀ inclusion, IgnoresCache source (enter inclusion)) :
    (branches : List (Branch Node)) → (scope : Nat) →
      IgnoresCache source (renderBranches host enter scope branches)
  | [], scope => by
      rw [Stencil.renderBranches]
      exact .pure _
  | branch :: rest, scope => by
      rw [Stencil.renderBranches]
      refine (IgnoresCache.valueOf host scope branch.condition).bind fun condition => ?_
      split
      · exact (IgnoresCache.renderAll henter branch.body scope).bind fun _ => .pure _
      · exact IgnoresCache.renderBranches henter rest scope

end

end Steps

/-! # Includes -/

section Includes

variable {setup : RenderSetup} (site : Site) (inclusion : Inclusion)

theorem IgnoresCache.includeData {source : ViewSource} (host : Host) :
    IgnoresCache source (includeData host inclusion) := by
  unfold Stencil.includeData
  split
  · exact .pure _
  next expression _ =>
      refine (IgnoresCache.valueOf host inclusion.scope expression).bind fun value => ?_
      refine .read (fun _ => rfl) fun s => ?_
      split
      · exact .pure _
      · exact (IgnoresCache.note _).bind fun _ => .pure _

theorem IgnoresCache.includeTarget :
    IgnoresCache setup.source (includeTarget setup site inclusion) := by
  refine (IgnoresCache.includeData inclusion setup.host).bind fun data => ?_
  split
  · exact .pure _
  · exact (IgnoresCache.note _).bind fun _ => .pure _

theorem IgnoresCache.rejectCycle {α : Type} {source : ViewSource} (path : Text) :
    IgnoresCache source (rejectCycle site inclusion path : Rendering α) :=
  (IgnoresCache.note _).bind fun _ => .throw _

theorem IgnoresCache.includeNodes (path : Text) :
    IgnoresCache setup.source (includeNodes setup site inclusion path) := by
  refine (IgnoresCache.note _).bind fun _ => ?_
  refine (IgnoresCache.fetch path).attempt.bind fun result => ?_
  split
  · exact .pure _
  · split
    · exact (IgnoresCache.note _).bind fun _ => .pure _
    · exact .throw _
  · exact .throw _

theorem IgnoresCache.renderInclude (left : Nat) :
    IgnoresCache setup.source (renderInclude setup left site inclusion) := by
  induction left generalizing site inclusion with
  | zero =>
      refine (IgnoresCache.includeTarget site inclusion).bind fun target => ?_
      cases target with
      | none => exact .pure _
      | some found => exact .rejectCycle site inclusion found.1
  | succ left ih =>
      refine (IgnoresCache.includeTarget site inclusion).bind fun target => ?_
      cases target with
      | none => exact .pure _
      | some found =>
          rcases found with ⟨path, data⟩
          dsimp only
          split
          · exact .rejectCycle site inclusion path
          · refine (IgnoresCache.includeNodes site inclusion path).bind fun nodes => ?_
            cases nodes with
            | none => exact .pure _
            | some nodes =>
                refine (IgnoresCache.addInclude path).bind fun _ => ?_
                refine (IgnoresCache.onStore _).bind fun scope => ?_
                exact .renderAll (fun inner => ih (site.enter path) inner) nodes scope

end Includes

/-! # Views -/

section Views

variable {setup : RenderSetup} (helpers : Helpers)

theorem IgnoresCache.renderView (view : Option Text) (nodes : List Node) :
    IgnoresCache setup.source (renderView setup view nodes) :=
  .renderAll (fun inclusion => .renderInclude _ inclusion _) nodes 0

end Views

end Rendering
end Stencil
