import Stencil.Error.Form
import Stencil.Value.Store
import Stencil.View.Directive

/-!
# Helpers

Helpers are functions that every view can call by name. The application registers
its own beside the built-in ones, and may replace those. A name must be an
identifier that is no reserved word, and a helper must be a function.
-/

namespace Stencil

abbrev Helpers : Type := List (String × Value)

namespace Helpers

def reservedWords : List String := ["true", "false", "null", "undefined", "this"]

/-- Whether a text is an identifier; a line break at its end does not count. -/
def isHelperName (name : String) : Bool :=
  let cs := name.toList
  isName (if cs.getLast? == some '\n' then cs.dropLast else cs)

def set : Helpers → String → Value → Helpers
  | [], name, value => [(name, value)]
  | (n, v) :: rest, name, value =>
      if n == name then (name, value) :: rest else (n, v) :: set rest name value

def invalid (detail : String) : ViewError :=
  ErrorForm.helperInvalid.fill [("detail", .text detail)] none

/-- Registers a helper under a name. -/
def register (σ : Store) (helpers : Helpers) (name helper : Value) : Except ViewError Helpers :=
  match name.string?.filter isHelperName with
  | none =>
      .error (invalid ("Helper name must be a non-empty identifier, got " ++ σ.quoted name))
  | some text =>
      if reservedWords.contains text then
        .error (invalid ("Helper name " ++ Text.quote text ++ " is reserved"))
      else if !helper.isCallable then
        .error (invalid ("Helper " ++ Text.quote text ++ " must be callable, got " ++
          σ.typeName helper))
      else .ok (helpers.set text helper)

def registerEntries (σ : Store) : Helpers → Entries Value → Except ViewError Unit × Helpers
  | helpers, [] => (.ok (), helpers)
  | helpers, (name, helper) :: rest =>
      match helpers.register σ (.ofKey name) helper with
      | .ok next => registerEntries σ next rest
      | .error e => (.error e, helpers)

def registerAll (σ : Store) (helpers : Helpers) (given : Value) :
    Except ViewError Unit × Helpers :=
  match σ.entries? given with
  | some entries => helpers.registerEntries σ entries
  | none =>
      (.error (invalid ("Helpers must be a mapping of name to callable, got " ++
        σ.typeName given)), helpers)

end Helpers
end Stencil
