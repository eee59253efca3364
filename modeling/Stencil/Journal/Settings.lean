import Stencil.Value.Basic

/-!
# Settings of the log

Which entries are written, and how. An entry is written if its level is not
below the level of the settings and its component is not switched off.
-/

namespace Stencil

inductive LogLevel where
  | debug
  | info
  | warn
  | error
deriving DecidableEq, Repr

namespace LogLevel

def all : List LogLevel := [debug, info, warn, error]

def name : LogLevel → String
  | debug => "DEBUG"
  | info => "INFO"
  | warn => "WARN"
  | error => "ERROR"

def rank : LogLevel → Nat
  | debug => 0
  | info => 1
  | warn => 2
  | error => 3

def ofName? (name : String) : Option LogLevel :=
  all.find? fun level => level.name == name

end LogLevel

inductive LogFormat where
  | colored
  | json
deriving DecidableEq, Repr

namespace LogFormat

def all : List LogFormat := [colored, json]

def name : LogFormat → String
  | colored => "colored"
  | json => "json"

def ofName? (name : String) : Option LogFormat :=
  all.find? fun format => format.name == name

end LogFormat

structure LogSettings where
  level : LogLevel
  format : LogFormat
  /-- Whether colored lines show the fields of an entry. -/
  showContext : Value
  /-- How many characters of the fields a colored line shows; below zero, how many it leaves out. -/
  truncateAt : Int
  /-- The components that are switched on or off; the others are on. -/
  switches : List (String × Value)

namespace LogSettings

def components : List String := ["render", "include", "expression", "config"]

def allOn : List (String × Value) :=
  components.map fun component => (component, .bool true)

def standard : LogSettings where
  level := .info
  format := .colored
  showContext := .bool true
  truncateAt := 200
  switches := allOn

def everything (format : LogFormat) : LogSettings :=
  { standard with level := .debug, format := format }

def switch (settings : LogSettings) (component : String) : Value :=
  match settings.switches.find? fun switch => switch.1 == component with
  | some switch => switch.2
  | none => .bool true

def enabled (settings : LogSettings) (level : LogLevel) (component : String) : Bool :=
  settings.level.rank ≤ level.rank && (settings.switch component).isOn

end LogSettings
end Stencil
