import Stencil.Engine.Start
import Stencil.Proofs.Outcome
import Stencil.Proofs.Render.Confinement

/-!
# Engines in use

An engine that has started answers one request of its application after the other. What
holds when it starts, and is kept by each request, holds of every engine in use.
-/

namespace Stencil

/-! # Requests -/

inductive Engine.Request where
  | render (name : Text) (data : Value)
  | renderSource (text : String) (view : Option Text) (data : Value)
  | register (name helper : Value)
  | registerAll (given : Value)
  | addView (name : Text) (text : String)
  | writeFile (path : Text) (text : String)
  | clearCache (name : Option Text)
  /-- The application changes containers of its own; the engine takes no part in it. -/
  | change (shared : Array Container)

inductive Engine.Answer where
  | rendered (result : Except Escape Rendered)
  | finished (result : Except ViewError Unit)
  | added (result : Except Trouble Text)

namespace Engine

def perform (host : Host) (engine : Engine) : Request → Answer × Engine
  | .render name data =>
      let (result, after) := engine.render host name data
      (.rendered result, after)
  | .renderSource text view data =>
      let (result, after) := engine.renderSource host text view data
      (.rendered result, after)
  | .register name helper =>
      let (result, after) := engine.register name helper
      (.finished result, after)
  | .registerAll given =>
      let (result, after) := engine.registerAll given
      (.finished result, after)
  | .addView name text =>
      let (result, after) := engine.addView name text
      (.added result, after)
  | .writeFile path text => (.finished (.ok ()), engine.writeFile path text)
  | .clearCache name =>
      let (result, after) := engine.clearCache name
      (.finished result, after)
  | .change shared =>
      (.finished (.ok ()), { engine with store := { engine.store with shared := shared } })

/-- Engines that have started and have answered some requests. -/
inductive Reachable : Engine → Prop where
  | start {engine : Engine} {ownLog : Bool} {logging : LogSection} {given : Entries Value}
      {memory : Option GivenViews} {files : FileTree} {store : Store} {helpers : Entries Value}
      (h : Engine.start ownLog logging given memory files store helpers = .ok engine) :
      Reachable engine
  | startFromFile {engine : Engine} {ownLog : Bool} {around : Surroundings}
      {path : Option Text} {memory : Option GivenViews} {store : Store}
      {helpers : Entries Value}
      (h : Engine.startFromFile ownLog around path memory store helpers = .ok engine) :
      Reachable engine
  | perform {engine : Engine} (h : Reachable engine) (host : Host) (request : Request) :
      Reachable (engine.perform host request).2

/-! # Engines that have just started -/

section Start

variable {ownLog : Bool} {logging : LogSection} {given : Entries Value}
  {memory : Option GivenViews} {files : FileTree} {store : Store} {engine : Engine}

/-- The fields of an engine that has just started, its helpers apart. -/
structure IsFresh (logging : LogSection) (given : Entries Value) (memory : Option GivenViews)
    (store : Store) (engine : Engine) : Prop where
  settings : engine.settings =
    ⟨.ofEntries (Entries.merge ViewSettings.standard.entries given), logging⟩
  cache : engine.cache = if engine.settings.views.cache then some .empty else none
  store : engine.store = store
  journal : engine.journal = []
  shelf : ∀ kept ∈ memory, engine.viewsType = kept.viewsType ∧ engine.shelf = .memory kept.views

theorem bare_of_ownLog (h : bare ownLog logging given memory files store = .ok engine) :
    bare false logging given memory files store = .ok engine := by
  cases ownLog with
  | false => exact h
  | true =>
      rcases bind_eq_ok_iff.mp h with ⟨_, _, h⟩
      exact h

theorem isFresh_of_bare (h : bare ownLog logging given memory files store = .ok engine) :
    engine.IsFresh logging given memory store ∧ engine.helpers = builtinHelpers := by
  have hbare := bare_of_ownLog h
  unfold bare at hbare
  simp only [Bool.false_eq_true, if_false] at hbare
  rcases bind_eq_ok_iff.mp hbare with ⟨_, _, hbare⟩
  cases memory with
  | none =>
      rcases bind_eq_ok_iff.mp hbare with ⟨_, _, hbare⟩
      cases hbare
      exact ⟨⟨rfl, rfl, rfl, rfl, by simp⟩, rfl⟩
  | some kept =>
      cases hbare
      exact ⟨⟨rfl, rfl, rfl, rfl, by simp⟩, rfl⟩

theorem isFresh_of_start {helpers : Entries Value}
    (h : start ownLog logging given memory files store helpers = .ok engine) :
    engine.IsFresh logging given memory store := by
  rcases bind_eq_ok_iff.mp h with ⟨first, hbare, h⟩
  have hfirst := (isFresh_of_bare hbare).1
  split at h
  next started hstarted =>
      cases h
      have hafter : engine = { first with
          helpers := (first.helpers.registerAll first.store (.map helpers)).2 } :=
        (congrArg Prod.snd hstarted).symm
      rw [hafter]
      exact ⟨hfirst.settings, hfirst.cache, hfirst.store, hfirst.journal, hfirst.shelf⟩
  · cases h

theorem isFresh_of_startFromFile {around : Surroundings} {path : Option Text}
    {helpers : Entries Value}
    (h : startFromFile ownLog around path memory store helpers = .ok engine) :
    ∃ settings : Settings, ∃ first : Engine,
      first.IsFresh settings.logging settings.views.entries memory store ∧
        ∃ journal, engine = { first with journal := journal } := by
  rcases bind_eq_ok_iff.mp h with ⟨settings, _, h⟩
  rcases bind_eq_ok_iff.mp h with ⟨first, hstart, h⟩
  cases h
  exact ⟨settings, first, isFresh_of_start hstart, _, rfl⟩

end Start

/-! # What every request keeps -/

theorem Reachable.induct {motive : Engine → Prop}
    (hstart : ∀ {engine logging given memory store},
      engine.IsFresh logging given memory store → motive engine)
    (hjournal : ∀ {engine} journal, motive engine → motive { engine with journal := journal })
    (hperform : ∀ {engine} host request, motive engine → motive (engine.perform host request).2)
    {engine : Engine} (h : engine.Reachable) : motive engine := by
  induction h with
  | start h => exact hstart (isFresh_of_start h)
  | startFromFile h =>
      rcases isFresh_of_startFromFile h with ⟨settings, first, hfirst, journal, rfl⟩
      exact hjournal journal (hstart hfirst)
  | perform h host request ih => exact hperform host request ih

end Engine
end Stencil
