import Stencil.Render.Nodes

/-!
# Rendering includes

An include renders another view in a new scope inside the one it stands in, with
its data bound there. An include that leads nowhere stays empty and is told. One
that would render a view inside itself, or go too deep, stops the render.
-/

namespace Stencil

/-- What stays the same throughout a render. -/
structure RenderSetup where
  host : Host
  source : ViewSource
  maxDepth : Nat

/-- Where in the tree of includes a render stands. -/
structure Site where
  /-- The view whose nodes are being rendered. -/
  view : Option Text
  /-- The views being rendered, outermost first. -/
  stack : List Text
  depth : Nat

namespace Site

def top (view : Option Text) : Site where
  view := view
  stack := (Text.said view).toList
  depth := 0

def enter (site : Site) (path : Text) : Site where
  view := some path
  stack := site.stack ++ [path]
  depth := site.depth + 1

end Site

/-- The error codes from which an include recovers. -/
def recoverableCodes : List String :=
  [ErrorForm.viewNotFound.code, ErrorForm.viewReadFailed.code]

def Site.facts (site : Site) (inclusion : Inclusion) : Facts :=
  Facts.given "view" (site.view.map .text) ++ [("line", .number inclusion.line)]

def noteMissing (site : Site) (inclusion : Inclusion) (error : ViewError) : Rendering Unit :=
  let reason := ErrorForm.includeNotFound.fill
    ([ ("path", .text inclusion.path),
      ("detail", (Fact.said error.detail).getD (.text error.message)) ] ++
      site.facts inclusion) none
  Rendering.note (.includeMissing inclusion.path reason.text)

def cycleError (site : Site) (inclusion : Inclusion) (path : Text) : ViewError :=
  ErrorForm.includeCycle.fill
    ([ ("path", .text path),
      ("chain", .text (Text.intercalate " -> " (site.stack ++ [path]))) ] ++
      site.facts inclusion) none

def rejectCycle (site : Site) (inclusion : Inclusion) (path : Text) : Rendering α := do
  Rendering.note (.includeCycle path (site.stack ++ [path]))
  throw (.view (cycleError site inclusion path))

/-- The data of an include: none if what is given is not a mapping. -/
def includeData (host : Host) (inclusion : Inclusion) : Rendering (Entries Value) := do
  match inclusion.data with
  | none => return []
  | some source => do
      let value ← Rendering.valueOf host inclusion.scope source
      match (← get).store.entries? value with
      | some entries => return entries
      | none => do
          Rendering.note (.expressionIgnored source "include data is not a mapping")
          return []

def includeTarget (setup : RenderSetup) (site : Site) (inclusion : Inclusion) :
    Rendering (Option (Text × Entries Value)) := do
  let data ← includeData setup.host inclusion
  match ViewPath.resolve setup.source.viewsType inclusion.path site.view with
  | .ok path => return some (path, data)
  | .error e => do
      noteMissing site inclusion e
      return none

/-- The nodes of an included view, unless it cannot be had. -/
def includeNodes (setup : RenderSetup) (site : Site) (inclusion : Inclusion) (path : Text) :
    Rendering (Option (List Node)) := do
  Rendering.note (.includeLoading path (site.depth + 1))
  match ← Rendering.attempt (Rendering.fetch setup.source path) with
  | .ok nodes => return some nodes
  | .error (.view e) =>
      if recoverableCodes.contains e.code then do
        noteMissing site inclusion e
        return none
      else throw (.view e)
  | .error trouble => throw trouble

/-- Renders an include that may be followed by a number of includes inside it. -/
def renderInclude (setup : RenderSetup) : Nat → Site → Inclusion → Rendering Text
  | 0, site, inclusion => do
      match ← includeTarget setup site inclusion with
      | none => return ""
      | some (path, _) => rejectCycle site inclusion path
  | left + 1, site, inclusion => do
      match ← includeTarget setup site inclusion with
      | none => return ""
      | some (path, data) =>
          if site.stack.contains path then rejectCycle site inclusion path
          else
            match ← includeNodes setup site inclusion path with
            | none => return ""
            | some nodes => do
                Rendering.addInclude path
                let scope ← Rendering.onStore fun σ => σ.child inclusion.scope data none
                renderAll setup.host (renderInclude setup left (site.enter path)) scope nodes

def renderView (setup : RenderSetup) (view : Option Text) (nodes : List Node) :
    Rendering Text :=
  renderAll setup.host (renderInclude setup setup.maxDepth (Site.top view)) 0 nodes

end Stencil
