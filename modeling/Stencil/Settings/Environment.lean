import Stencil.Error.Trouble
import Stencil.Text.Utf8

/-!
# References to the environment

A text in a settings file may refer to variables of the environment. `${NAME}` stands
for a variable that must be set, `${NAME:-text}` for one with a text to fall back on,
and `${NAME:?text}` says what to complain of if it is not set. A text is gone through
once: what is put in for a reference is not looked at again.
-/

namespace Stencil

abbrev Environment : Type := List (Text × Text)

/-- The value of a variable. Names are told apart by their bytes. -/
def Environment.get? (env : Environment) (name : Text) : Option Text :=
  (env.find? fun entry => entry.1.bytes? == name.bytes?).map (·.2)

inductive Fallback where
  | required
  | text (text : Text)
  | complaint (text : Text)
deriving DecidableEq, Repr

structure Reference where
  name : Text
  fallback : Fallback
deriving DecidableEq, Repr

inductive SettingPart where
  | point (p : CodePoint)
  | reference (reference : Reference)
deriving DecidableEq, Repr

namespace Fallback

def written : Fallback → Text
  | required => ""
  | text t => ":-" ++ t
  | complaint t => ":?" ++ t

def complaint? : Fallback → Option Text
  | complaint t => some t
  | _ => none

end Fallback

def Reference.written (reference : Reference) : Text :=
  "$\x7b" ++ reference.name ++ reference.fallback.written ++ "\x7d"

/-! # Reading references -/

namespace Reference

def isNamePoint (p : CodePoint) : Bool :=
  p != '\x7d' && p != ':'

def operand? (points : List CodePoint) : Option Text :=
  let text := points.takeWhile fun p => p != .char '\x7d'
  if (points.drop text.length).isEmpty then none else some ⟨text⟩

def fallback? : List CodePoint → Option Fallback
  | .char '\x7d' :: _ => some .required
  | .char ':' :: .char '-' :: rest => (operand? rest).map .text
  | .char ':' :: .char '?' :: rest => (operand? rest).map .complaint
  | _ => none

def read? (points : List CodePoint) : Option Reference :=
  let name := points.takeWhile isNamePoint
  if name.isEmpty then none
  else (fallback? (points.drop name.length)).map fun fallback => ⟨⟨name⟩, fallback⟩

end Reference

def settingParts : List CodePoint → List SettingPart
  | [] => []
  | .char '$' :: .char '\x7b' :: rest =>
      match Reference.read? rest with
      | some reference =>
          .reference reference :: settingParts (rest.drop (reference.written.length - 2))
      | none => .point '$' :: settingParts (.char '\x7b' :: rest)
  | p :: rest => .point p :: settingParts rest
termination_by points => points.length
decreasing_by all_goals simp only [List.length_cons, List.length_drop]; omega

/-! # Putting in -/

namespace Reference

def missingText (reference : Reference) : Text :=
  match Text.said reference.fallback.complaint? with
  | some text => text
  | none => "Environment variable " ++ reference.name ++ " is required but not set"

def unwritableName : Trouble :=
  .other "UnicodeEncodeError" "surrogates not allowed"

/-- What a reference stands for. -/
def resolve (env : Environment) (reference : Reference) : Except Trouble Text :=
  if reference.name.bytes?.isNone then .error unwritableName
  else
    match env.get? reference.name, reference.fallback with
    | some value, _ => .ok value
    | none, .text text => .ok text
    | none, _ =>
        .error (.view (ErrorForm.configInvalid.fill
          [("detail", .text reference.missingText)] none))

end Reference

namespace Environment

def resolveParts (env : Environment) : List SettingPart → Except Trouble (List CodePoint)
  | [] => .ok []
  | .point p :: rest => do return p :: (← resolveParts env rest)
  | .reference reference :: rest => do
      let text ← reference.resolve env
      let others ← resolveParts env rest
      return text.points ++ others

def resolve (env : Environment) (text : Text) : Except Trouble Text :=
  (env.resolveParts (settingParts text.points)).map Text.mk

mutual

/-- A value with the references in its texts replaced; keys stay as they are. -/
def resolveValue (env : Environment) : Value → Except Trouble Value
  | .str s => (env.resolve s).map .str
  | .list items => (resolveItems env items).map .list
  | .map entries => (resolveEntries env entries).map .map
  | value => .ok value

def resolveItems (env : Environment) : List Value → Except Trouble (List Value)
  | [] => .ok []
  | v :: rest => do
      let first ← resolveValue env v
      let others ← resolveItems env rest
      return first :: others

def resolveEntries (env : Environment) :
    List (Key × Value) → Except Trouble (List (Key × Value))
  | [] => .ok []
  | (key, v) :: rest => do
      let first ← resolveValue env v
      let others ← resolveEntries env rest
      return (key, first) :: others

end

end Environment
end Stencil
