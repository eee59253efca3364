import Stencil.Error.Trouble

/-!
# Failures raised from outside

A failure that is raised by something other than the library has a kind and says
something. Failures of the system report a number, the text that goes with it, and the
file if it is known; the common numbers have a kind of their own.
-/

namespace Stencil

structure Raised where
  kind : String
  told : List Fact

structure SystemReport where
  number : Fact
  text : Fact
  /-- What is told besides, as a rule the name of a file. -/
  subject : Option Fact

/-! # Kinds -/

def numberedKinds : List (Int × String) :=
  [ (1, "PermissionError"),
    (2, "FileNotFoundError"),
    (3, "ProcessLookupError"),
    (4, "InterruptedError"),
    (10, "ChildProcessError"),
    (11, "BlockingIOError"),
    (13, "PermissionError"),
    (17, "FileExistsError"),
    (20, "NotADirectoryError"),
    (21, "IsADirectoryError"),
    (32, "BrokenPipeError"),
    (103, "ConnectionAbortedError"),
    (104, "ConnectionResetError"),
    (108, "BrokenPipeError"),
    (110, "TimeoutError"),
    (111, "ConnectionRefusedError"),
    (114, "BlockingIOError"),
    (115, "BlockingIOError") ]

def generalKind : String := "OSError"

def generalNames : List String := ["IOError", "EnvironmentError"]

def systemKinds : List String :=
  generalKind :: "ConnectionError" :: numberedKinds.map (·.2)

/-- The kind of a failure that tells how much was done before it, in place of a file. -/
def countingKind : String := "BlockingIOError"

def missingKinds : List String :=
  ["FileNotFoundError", "IsADirectoryError", "NotADirectoryError"]

def kindOfNumber? (number : Fact) : Option String := do
  let n ← number.value.number?
  let entry ← numberedKinds.find? fun entry => n.equal (.int entry.1)
  return entry.2

namespace Raised

def ofName (name : String) (told : List Fact) : Raised :=
  ⟨if generalNames.contains name then generalKind else name, told⟩

def isOfSystem (raised : Raised) : Bool :=
  systemKinds.contains raised.kind

/-- The report of a failure of the system, which takes two to five facts. -/
def report? (raised : Raised) : Option SystemReport :=
  match raised.told with
  | number :: text :: rest =>
      if raised.isOfSystem && rest.length ≤ 3 then
        some ⟨number, text, rest.head?.filter fun subject => !subject.isNull⟩
      else none
  | _ => none

/-- The kind of a failure; one of the general kind is known by its number. -/
def exactKind (raised : Raised) : String :=
  match raised.report? with
  | some report =>
      if raised.kind == generalKind then (kindOfNumber? report.number).getD generalKind
      else raised.kind
  | none => raised.kind

/-- The file that a failure reports; an amount is none. -/
def filename? (raised : Raised) : Option Fact :=
  (raised.report?.bind SystemReport.subject).filter fun subject =>
    !(raised.exactKind == countingKind && subject.value.number?.isSome)

/-- What a failure says: a single fact stands for itself, but a key is quoted. -/
def text (raised : Raised) : Text :=
  match raised.report?, raised.told with
  | some report, _ =>
      "[Errno " ++ report.number.shown ++ "] " ++ report.text.shown ++
        match raised.filename? with
        | some filename => ": " ++ filename.quoted
        | none => ""
  | none, [] => ""
  | none, [fact] => if raised.kind == "KeyError" then fact.quoted else fact.shown
  | none, facts => "(" ++ Text.intercalate ", " (facts.map Fact.quoted) ++ ")"

def trouble (raised : Raised) : Trouble :=
  if missingKinds.contains raised.exactKind then
    .missing raised.exactKind raised.text raised.filename?
  else if raised.isOfSystem then .unreadable raised.exactKind raised.text raised.filename?
  else .other raised.exactKind raised.text

end Raised
end Stencil
