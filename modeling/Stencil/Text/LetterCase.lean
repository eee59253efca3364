import Stencil.Text.Basic
import Stencil.Text.LetterCase.Table

/-!
# Upper and lower case

The case mappings work on whole texts: one letter may become several, and the
lower case of the Greek capital sigma depends on whether it ends a word.
-/

namespace Stencil
namespace Text

def CaseRun.maps (run : CaseRun) (code : Nat) : Bool :=
  run.first ≤ code && code ≤ run.last && (code - run.first) % run.step == 0

def shiftCase (runs : List CaseRun) (c : Char) : Char :=
  match runs.find? fun run => run.maps c.toNat with
  | some run => Char.ofNat (c.toNat + run.shift).toNat
  | none => c

def upperChar (c : Char) : List Char :=
  if c.toNat < 128 then [c.toUpper]
  else
    match upperTexts.find? fun entry => entry.1 == c.toNat with
    | some entry => entry.2.map Char.ofNat
    | none => [shiftCase upperRuns c]

def upper (t : Text) : Text :=
  t.mapChars upperChar

/-! # The final sigma -/

def capitalSigma : Char := Char.ofNat 0x3A3
def smallSigma : Char := Char.ofNat 0x3C3
def finalSigma : Char := Char.ofNat 0x3C2

/-- Whether the nearest code point that is not passed over has case. -/
def facesCased (points : List CodePoint) : Bool :=
  match points.find? fun p => !caseIgnorableRanges.covers p.code with
  | some p => casedRanges.covers p.code
  | none => false

/-- `before` holds what precedes the sigma, nearest code point first. -/
def sigmaFor (before after : List CodePoint) : Char :=
  if facesCased before && !facesCased after then finalSigma else smallSigma

def lowerChar (before : List CodePoint) (c : Char) (after : List CodePoint) : List Char :=
  if c.toNat < 128 then [c.toLower]
  else if c == capitalSigma then [sigmaFor before after]
  else if c.toNat == 0x130 then [Char.ofNat 0x69, Char.ofNat 0x307]
  else [shiftCase lowerRuns c]

def lowerFrom (before : List CodePoint) : List CodePoint → List CodePoint
  | [] => []
  | .char c :: rest =>
      (lowerChar before c rest).map .char ++ lowerFrom (.char c :: before) rest
  | p :: rest => p :: lowerFrom (p :: before) rest

def lower (t : Text) : Text :=
  ⟨lowerFrom [] t.points⟩

end Text
end Stencil
