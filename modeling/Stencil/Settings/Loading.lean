import Stencil.Files.Views
import Stencil.Journal.Entry
import Stencil.Settings.Check
import Stencil.Settings.Environment
import Stencil.Yaml.Block

/-!
# Loading settings

Settings are loaded from a file or given as entries. A loader keeps the settings that
were loaded last, and the path of their file; a load that fails leaves both as they
were. What happens is told as log entries.
-/

namespace Stencil

structure Surroundings where
  files : FileTree
  environment : Environment

def Surroundings.isPlainFile (around : Surroundings) (path : Text) : Except Trouble Bool :=
  FileTree.asked (around.files.isPlainFile path)

structure SettingsLoader where
  settings : Option Settings
  /-- The file of the settings, unless they came without one. -/
  path : Option Text
  /-- What has been told, the first entry first. -/
  journal : List LogEntry

def settingsVariable : String := "NOVAX_VIEWS_CONFIG"

def settingsFile : String := "novax-views.yaml"

/-! # Notices -/

namespace Notice

def info (message : String) : LogEntry := ⟨.info, "config", message, .null⟩

def loaded : LogEntry := info "Configuration loaded successfully"

def standard : LogEntry := info "No config file found, using default configuration"

def warning (issue : Issue) : LogEntry :=
  ⟨.warn, "config", issue.message, .map [(.str "path", .ofKey issue.path)]⟩

end Notice

/-! # Errors -/

def settingsError (detail : Text) : ViewError :=
  ErrorForm.configInvalid.fill [("detail", .text detail)] none

def errorSummary (issues : List Issue) : Text :=
  "Configuration validation failed:\n" ++
    Text.intercalate "\n" (issues.map fun issue => "- " ++ issue.message)

/-! # Paths -/

/-- A path as it is shown: without names that stay in place and slashes that do nothing. -/
def shownPath (path : Text) : Text :=
  let slashes := (path.points.takeWhile (· == .char '/')).length
  let root : Text := if slashes == 2 then "//" else if slashes == 0 then "" else "/"
  let text := root ++ Text.intercalate "/" (FileTree.parts path)
  if text == "" then "." else text

namespace SettingsLoader

def empty : SettingsLoader := ⟨none, none, []⟩

def tell (loader : SettingsLoader) (entries : List LogEntry) : SettingsLoader :=
  { loader with journal := loader.journal ++ entries }

def defaultPath (env : Environment) : Text :=
  (Text.said (env.get? settingsVariable)).getD settingsFile

/-! # Entries -/

/-- The settings among entries, if they can be used, and what is to be told of them. -/
def accept (around : Surroundings) (σ : Store) (given : Value) :
    Except Trouble (Settings × List LogEntry) := do
  let entries ← Settings.entriesOf σ given
  let findings ← Settings.checkEntries around.isPlainFile σ entries
  if findings.isValid then
    return (.ofEntries σ entries, findings.warnings.map Notice.warning ++ [Notice.loaded])
  else throw (.view (settingsError (errorSummary findings.errors)))

/-- Loads settings that are given as a mapping, which came from a file if a path is given. -/
def loadGiven (loader : SettingsLoader) (around : Surroundings) (σ : Store) (given : Value)
    (path : Option Text) : Except Trouble Settings × SettingsLoader :=
  match accept around σ given with
  | .error trouble => (.error trouble, loader)
  | .ok (settings, notices) =>
      (.ok settings, { loader.tell notices with settings := some settings, path := path })

def loadEntries (loader : SettingsLoader) (around : Surroundings) (entries : Entries Value)
    (path : Option Text) : Except Trouble Settings × SettingsLoader :=
  loader.loadGiven around (.ofData [] []) (.map entries) path

def loadStandard (loader : SettingsLoader) (around : Surroundings) :
    Except Trouble Settings × SettingsLoader :=
  loader.loadEntries around [] none

/-! # Files -/

def readText (files : FileTree) (path : Text) : Except Trouble String := do
  match ← FileTree.asked (files.find? path) with
  | some (.file content) =>
      match Text.ofBytes content with
      | .ok text => return text
      | .error e => throw (.other "UnicodeDecodeError" e.text)
  | _ => throw (.other "IsADirectoryError" ("Is a directory: " ++ Text.quote path))

def entriesOf (text : String) : Except Trouble (Entries Value) :=
  match Yaml.read text with
  | .error .malformed => .error (.view (settingsError "Invalid YAML in config file"))
  | .error .impossibleDate => .error (.other "ValueError" "impossible date")
  | .ok value =>
      let σ := Store.ofData [] []
      if !value.isOn then .ok []
      else
        match σ.entries? value with
        | some entries => .ok entries
        | none => .error (.view (settingsError
            ("Config file must contain a mapping, got " ++ σ.typeName value)))

def readEntries (around : Surroundings) (path : Text) : Except Trouble (Entries Value) := do
  let text ← readText around.files path
  around.environment.resolveEntries (← entriesOf text)

/--
Loads settings from a file: the one asked for, else the one that the environment
names, else the usual one. If there is no such file, standard settings may do.
-/
def load (loader : SettingsLoader) (around : Surroundings) (path : Option Text)
    (useStandard : Bool) : Except Trouble Settings × SettingsLoader :=
  let path := path.getD (defaultPath around.environment)
  match FileTree.asked (around.files.isThere path) with
  | .error trouble => (.error trouble, loader)
  | .ok true =>
      match readEntries around path with
      | .error trouble => (.error trouble, loader)
      | .ok entries => loader.loadEntries around entries (some (shownPath path))
  | .ok false =>
      if useStandard then (loader.tell [Notice.standard]).loadStandard around
      else
        (.error (.view (settingsError ("Configuration file not found: " ++ shownPath path))),
          loader)

def current (loader : SettingsLoader) : Except ViewError Settings :=
  match loader.settings with
  | some settings => .ok settings
  | none => .error (settingsError "Configuration not loaded")

end SettingsLoader
end Stencil
