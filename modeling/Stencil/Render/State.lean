import Stencil.Cache.Basic
import Stencil.Expression.Evaluation
import Stencil.Journal.Event
import Stencil.View.Source

/-!
# Renders in progress

A render works on the store, may fill the cache, tells the journal what happens,
and keeps the paths of the views that it has included. It ends with a text or with
the trouble that stopped it. What it has told by then stays told.
-/

namespace Stencil

structure RenderState where
  store : Store
  /-- The parsed views, unless the cache is off. -/
  cache : Option (Cache (List Node))
  /-- What has happened, the latest first. -/
  events : List Event
  /-- The views included so far, the latest first. -/
  includes : List Text

abbrev Rendering (α : Type) : Type := ExceptT Trouble (StateM RenderState) α

namespace Rendering

def note (event : Event) : Rendering Unit := fun s =>
  (.ok (), { s with events := event :: s.events })

def addInclude (path : Text) : Rendering Unit := fun s =>
  (.ok (), { s with includes := path :: s.includes })

def ofExcept (result : Except Trouble α) : Rendering α := fun s =>
  (result, s)

def attempt (action : Rendering α) : Rendering (Except Trouble α) := fun s =>
  let (result, after) := action s
  (.ok result, after)

def onStore (f : Store → α × Store) : Rendering α := fun s =>
  let (a, store) := f s.store
  (.ok a, { s with store := store })

/-- The nodes of a view, from the cache if there is one. -/
def fetch (source : ViewSource) (path : Text) : Rendering (List Node) := fun s =>
  match s.cache with
  | none => (source.parsed path, s)
  | some cache =>
      let (result, after) := cache.get path fun _ => source.parsed path
      (result, { s with cache := some after })

/-! # Expressions -/

/--
Runs an evaluation. One that fails is told, and something else stands in for it. If it
cannot be told, the render fails with what went wrong then.
-/
def recover (source : String) (action : Evaluation α) (instead : α) : Rendering α := do
  match ← onStore action with
  | .ok a => return a
  | .error failure =>
      match failure.told with
      | .ok text => do
          note (.expressionFailed (Text.strip source) ⟨failure.kind, text⟩)
          return instead
      | .error again => throw again.trouble

/-- The value of an expression, undefined if it has none. -/
def valueOf (host : Host) (scope : Nat) (source : String) : Rendering Value :=
  recover source (evalSource host scope source) .undefined

/-- The output text of an expression, if it has one. -/
def textOf (host : Host) (scope : Nat) (source : String) : Rendering (Option Text) :=
  recover source (textOfSource host scope source) none

end Rendering
end Stencil
