import Stencil.Engine.Basic

/-!
# Starting an engine

An engine starts from settings, which are checked once more, and from views in memory
or, if none are given, from the directory that the settings name.
-/

namespace Stencil

def ViewSettings.entries (views : ViewSettings) : Entries Value :=
  [ (.str "views_path", .str views.viewsPath),
    (.str "views_type", .str views.viewsType),
    (.str "max_include_depth", .int views.maxIncludeDepth),
    (.str "cache", .bool views.cache),
    (.str "create_views_dir", .bool views.createViewsDir) ]

/-- Views in memory that an engine starts with. -/
structure GivenViews where
  viewsType : Text
  views : MemoryViews

def GivenViews.ofList (viewsType : Text) (named : List (String × String)) :
    Except Trouble GivenViews :=
  match MemoryViews.ofList (ViewPath.plainType viewsType) named with
  | .ok views => .ok ⟨ViewPath.plainType viewsType, views⟩
  | .error e => .error (.view e)

namespace Engine

/--
Checks the settings of the views. They are copied first, with all they hold, so a value
that contains itself is trouble of its own.
-/
def checkViewSettings (files : FileTree) (store : Store) (entries : Entries Value) :
    Except Trouble Unit := do
  if entries.any fun entry => store.containsItself entry.2 then throw Failure.endless.trouble
  let issues ← Settings.viewIssues (fun path => FileTree.asked (files.isPlainFile path)) entries
  if !issues.isEmpty then
    throw (.view (settingsError (Text.intercalate "; " (issues.map Issue.message))))

/-- The directory of the views, made if the settings ask for it, and the files with it. -/
def openDirectory (files : FileTree) (views : ViewSettings) :
    Except Trouble (Location × FileTree) :=
  FileTree.asked do
    let files ← if views.createViewsDir then files.makeDirectory views.viewsPath else .ok files
    return (← files.resolve files.home views.viewsPath, files)

/--
An engine with the built-in helpers alone, over the views that it is given or names. One
that writes its own log needs settings of the log that can be used.
-/
def bare (ownLog : Bool) (logging : LogSection) (given : Entries Value) (memory : Option GivenViews)
    (files : FileTree) (store : Store) : Except Trouble Engine := do
  if ownLog then
    let _ ← (logging.logSettings store).mapError Failure.trouble
  let entries := Entries.merge ViewSettings.standard.entries given
  checkViewSettings files store entries
  let views := ViewSettings.ofEntries entries
  let engine : Engine :=
    { settings := ⟨views, logging⟩
      viewsType := views.viewsType
      shelf := .memory []
      files := files
      cache := if views.cache then some .empty else none
      helpers := builtinHelpers
      store := store
      journal := [] }
  match memory with
  | some kept =>
      return { engine with
        viewsType := kept.viewsType
        shelf := .memory kept.views }
  | none =>
      let (root, files) ← openDirectory files views
      return { engine with
        viewsType := ViewPath.plainType views.viewsType
        shelf := .directory root
        files := files }

/--
Starts an engine with helpers. The entries set what they name; everything else about
the views keeps its standard value.
-/
def start (ownLog : Bool) (logging : LogSection) (given : Entries Value)
    (memory : Option GivenViews) (files : FileTree) (store : Store) (helpers : Entries Value) :
    Except Trouble Engine := do
  let engine ← bare ownLog logging given memory files store
  match engine.registerAll (.map helpers) with
  | (.ok (), started) => return started
  | (.error e, _) => throw (.view e)

def startFromFile (ownLog : Bool) (around : Surroundings) (path : Option Text)
    (memory : Option GivenViews) (store : Store) (helpers : Entries Value) :
    Except Trouble Engine := do
  let (result, loader) := SettingsLoader.empty.load around path true
  let settings ← result
  let engine ←
    start ownLog settings.logging settings.views.entries memory around.files store helpers
  return { engine with journal := loader.journal ++ engine.journal }

end Engine
end Stencil
