import Stencil.Engine.Helpers
import Stencil.Render.Include
import Stencil.Settings.Loading

/-!
# Engines

An engine renders views, by name or from a text. It holds the settings, the place
where the views are kept, the helpers and the cache. Each render begins with a fresh
scope over the data it is given; calls made in earlier renders are remembered.

A render succeeds with a text, or fails with a view error that names the view at
fault. Either way the journal tells what has happened. Some failures of the host
get out as they are.
-/

namespace Stencil

inductive Shelf where
  | memory (views : MemoryViews)
  /-- In files below a directory. -/
  | directory (root : Location)

structure Engine where
  settings : Settings
  /-- The extension of views that are named without one. -/
  viewsType : Text
  shelf : Shelf
  files : FileTree
  cache : Option (Cache (List Node))
  helpers : Helpers
  /-- What the renders so far have left behind. -/
  store : Store
  /-- What has been told, the first entry first. -/
  journal : List LogEntry

structure Rendered where
  output : Text
  hadDirectives : Bool
  /-- The views included, in the order in which they were. -/
  includes : List Text

/-! # Renders -/

/-- A store that has nothing but the root scope over some data. -/
def Store.restart (σ : Store) (data : Entries Value) (helpers : Helpers) : Store :=
  { σ with data := data, helpers := helpers, scopes := #[⟨[], [], none⟩] }

/-- The entries of the data for a render; null stands for none. -/
def renderData (σ : Store) (data : Value) : Except Trouble (Entries Value) :=
  match data with
  | .null => .ok []
  | data =>
      match σ.entries? data with
      | some entries => .ok entries
      | none => .error (.other "TypeError"
          ("Render data must be a mapping, got " ++ σ.typeName data))

def renderOver (setup : RenderSetup) (helpers : Helpers) (view : Option Text) (data : Value)
    (nodes : List Node) : Rendering Rendered := do
  let entries ← Rendering.ofExcept (renderData (← get).store data)
  Rendering.onStore fun σ => ((), σ.restart entries helpers)
  let output ← renderView setup view nodes
  return ⟨output, Node.anyDirective nodes, (← get).includes.reverse⟩

def renderNamed (setup : RenderSetup) (helpers : Helpers) (name : Text) (data : Value) :
    Rendering Rendered := do
  match ViewPath.resolve setup.source.viewsType name none with
  | .error e => throw (.view e)
  | .ok path => do
      let nodes ← Rendering.fetch setup.source path
      renderOver setup helpers (some path) data nodes

/-- Renders a text, which may stand for a view. -/
def renderText (setup : RenderSetup) (helpers : Helpers) (text : String) (view : Option Text)
    (data : Value) : Rendering Rendered :=
  match View.parse text with
  | .error e => throw (.view (View.structureError e view))
  | .ok nodes => renderOver setup helpers view data nodes

/--
Runs a render of a view and tells of its beginning and its end. No time passes. Nothing
is told at the end of what becomes no view error.
-/
def concluded (view : Option Text) (action : Rendering Rendered) (s : RenderState) :
    Except Escape Rendered × RenderState :=
  let (result, after) := action { s with events := .renderStarted :: s.events }
  match result with
  | .ok rendered =>
      let event := Event.renderCompleted 0 rendered.output.length rendered.includes.length
      (.ok rendered, { after with events := event :: after.events })
  | .error trouble =>
      match trouble.escape (view.map .text) with
      | .view error =>
          (.error (.view error),
            { after with events := .renderFailed error.asCause 0 :: after.events })
      | escape => (.error escape, after)

namespace Engine

def source (engine : Engine) : ViewSource :=
  match engine.shelf with
  | .memory views => views.source engine.viewsType
  | .directory root => engine.files.views root engine.viewsType

def setup (engine : Engine) (host : Host) : RenderSetup where
  host := host
  source := engine.source
  maxDepth := engine.settings.views.maxIncludeDepth

def begin (engine : Engine) : RenderState where
  store := engine.store
  cache := engine.cache
  events := []
  includes := []

/-- Runs a render and keeps what it leaves behind. -/
def run (engine : Engine) (view : Option Text) (action : Rendering Rendered) :
    Except Escape Rendered × Engine :=
  let (result, after) := concluded view action engine.begin
  let entries := after.events.reverse.map (Event.entry (Event.viewLabel view))
  (result, { engine with
    store := after.store
    cache := after.cache
    journal := engine.journal ++ entries })

def render (engine : Engine) (host : Host) (name : Text) (data : Value) :
    Except Escape Rendered × Engine :=
  engine.run (some name) (renderNamed (engine.setup host) engine.helpers name data)

def renderSource (engine : Engine) (host : Host) (text : String) (view : Option Text)
    (data : Value) : Except Escape Rendered × Engine :=
  engine.run view (renderText (engine.setup host) engine.helpers text view data)

/-! # Changes -/

def register (engine : Engine) (name helper : Value) : Except ViewError Unit × Engine :=
  match engine.helpers.register engine.store name helper with
  | .ok helpers => (.ok (), { engine with helpers := helpers })
  | .error e => (.error e, engine)

def registerAll (engine : Engine) (given : Value) : Except ViewError Unit × Engine :=
  let (result, helpers) := engine.helpers.registerAll engine.store given
  (result, { engine with helpers := helpers })

/-- Adds a view in memory and returns its path. Views in files cannot be added. -/
def addView (engine : Engine) (name : Text) (text : String) : Except Trouble Text × Engine :=
  match engine.shelf with
  | .memory views =>
      match views.add engine.viewsType name text with
      | .ok (path, after) => (.ok path, { engine with shelf := .memory after })
      | .error e => (.error (.view e), engine)
  | .directory _ => (.error (.other "AttributeError" "views in files cannot be added"), engine)

def writeFile (engine : Engine) (path : Text) (text : String) : Engine :=
  { engine with files := engine.files.write path text.toUTF8.toList }

def clearCache (engine : Engine) (name : Option Text) : Except ViewError Unit × Engine :=
  match engine.cache, Text.said name with
  | none, _ => (.ok (), engine)
  | some cache, none => (.ok (), { engine with cache := some cache.clear })
  | some cache, some name =>
      match ViewPath.resolve engine.viewsType name none with
      | .ok path => (.ok (), { engine with cache := some (cache.drop path) })
      | .error e => (.error e, engine)

end Engine
end Stencil
