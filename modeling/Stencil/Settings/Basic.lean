import Stencil.Failure
import Stencil.Journal.Settings
import Stencil.Value.Output

/-!
# Settings

What an application can set. Settings come as entries of names and values; what is
not named keeps its standard value. Most values are checked before they are used,
see `Settings.check`; the switches of the log are taken as they come.
-/

namespace Stencil

structure ViewSettings where
  /-- The directory of the views. -/
  viewsPath : Text
  /-- The extension of views that are named without one. -/
  viewsType : Text
  maxIncludeDepth : Nat
  cache : Bool
  /-- Whether the directory of the views is made if it is not there. -/
  createViewsDir : Bool

inductive ComponentSettings where
  | switches (render inclusion expression config : Value)
  /-- Something that names no components. -/
  | other (value : Value)

structure LogSection where
  level : LogLevel
  format : LogFormat
  showContext : Value
  truncateAt : Int
  components : ComponentSettings

structure Settings where
  views : ViewSettings
  logging : LogSection

/-! # Standard settings -/

def ViewSettings.standard : ViewSettings where
  viewsPath := "./views"
  viewsType := "html"
  maxIncludeDepth := 16
  cache := false
  createViewsDir := false

def ComponentSettings.standard : ComponentSettings :=
  .switches (.bool true) (.bool true) (.bool true) (.bool true)

def LogSection.standard : LogSection where
  level := .info
  format := .colored
  showContext := .bool true
  truncateAt := 200
  components := .standard

def Settings.standard : Settings := ⟨.standard, .standard⟩

/-! # Settings from entries -/

def Entries.named (entries : Entries Value) (name : String) : Option Value :=
  entries.get? (.str name)

namespace Value

def integer? : Value → Option Int
  | int n => some n
  | _ => none

def flag? : Value → Option Bool
  | bool b => some b
  | _ => none

end Value

def ViewSettings.ofEntries (entries : Entries Value) : ViewSettings where
  viewsPath := ((entries.named "views_path").bind Value.text?).getD standard.viewsPath
  viewsType := ((entries.named "views_type").bind Value.text?).getD standard.viewsType
  maxIncludeDepth :=
    (((entries.named "max_include_depth").bind Value.integer?).map Int.toNat).getD
      standard.maxIncludeDepth
  cache := ((entries.named "cache").bind Value.flag?).getD standard.cache
  createViewsDir :=
    ((entries.named "create_views_dir").bind Value.flag?).getD standard.createViewsDir

def ComponentSettings.ofValue (σ : Store) (value : Value) : ComponentSettings :=
  match σ.entries? value with
  | some entries =>
      let switch (name : String) : Value := (Entries.named entries name).getD (.bool true)
      .switches (switch "render") (switch "include") (switch "expression") (switch "config")
  | none => .other value

def LogSection.ofEntries (σ : Store) (entries : Entries Value) : LogSection where
  level :=
    (((entries.named "level").bind Value.string?).bind LogLevel.ofName?).getD standard.level
  format :=
    (((entries.named "format").bind Value.string?).bind LogFormat.ofName?).getD standard.format
  showContext := (entries.named "show_context").getD standard.showContext
  truncateAt := ((entries.named "truncate_at").bind Value.integer?).getD standard.truncateAt
  components := ((entries.named "components").map (.ofValue σ)).getD .standard

def Settings.section? (σ : Store) (entries : Entries Value) (name : String) :
    Option (Entries Value) :=
  (entries.named name).bind σ.entries?

def Settings.ofEntries (σ : Store) (entries : Entries Value) : Settings where
  views := .ofEntries ((section? σ entries "views").getD [])
  logging := .ofEntries σ ((section? σ entries "logging").getD [])

/-! # Settings of the log -/

/--
The settings of the log. There are none if no components are named, or if a switch
contains itself, since the switches are copied with all they hold.
-/
def LogSection.logSettings (σ : Store) (logging : LogSection) : Except Failure LogSettings :=
  match logging.components with
  | .switches render inclusion expression config =>
      if [render, inclusion, expression, config].any σ.containsItself then .error .endless
      else
        .ok
          { level := logging.level
            format := logging.format
            showContext := logging.showContext
            truncateAt := logging.truncateAt
            switches :=
              [("render", render), ("include", inclusion), ("expression", expression),
                ("config", config)] }
  | .other _ => .error .noComponents

def switchesOf (entries : Entries Value) : List (String × Value) :=
  entries.filterMap fun entry =>
    match (Value.ofKey entry.1).string? with
    | some name => some (name, entry.2)
    | none => none

/-- The settings of a log by itself: without switches, every component is on. -/
def LogSettings.ofEntries (σ : Store) (entries : Entries Value) : LogSettings :=
  let logging := LogSection.ofEntries σ entries
  let switches := switchesOf ((Settings.section? σ entries "components").getD [])
  { level := logging.level
    format := logging.format
    showContext := logging.showContext
    truncateAt := logging.truncateAt
    switches := if switches.isEmpty then allOn else switches }

end Stencil
