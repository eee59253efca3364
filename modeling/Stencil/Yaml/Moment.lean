/-!
# Dates and times of YAML

A scalar without quotes may look like a date, or like a date with a time and perhaps
the distance from the standard time. Not every text that looks so is a day of the
calendar.
-/

namespace Stencil
namespace Yaml

/-- Hours, minutes and seconds, and the distance from the standard time in minutes. -/
structure ClockTime where
  hour : Nat
  minute : Nat
  second : Nat
  offset : Nat
deriving DecidableEq, Repr

structure Moment where
  year : Nat
  month : Nat
  day : Nat
  time : Option ClockTime
deriving DecidableEq, Repr

/-! # Reading -/

def digitRun? (least most : Nat) (cs : List Char) : Option (Nat × List Char) :=
  let digits := (cs.take most).takeWhile Char.isDigit
  if digits.length < least then none
  else some (digits.foldl (fun n c => 10 * n + (c.toNat - 48)) 0, cs.drop digits.length)

def after? (c : Char) (cs : List Char) : Option (List Char) :=
  if cs.head? == some c then some (cs.drop 1) else none

def isGap (c : Char) : Bool :=
  c == ' ' || c == '\t'

def afterDate? (cs : List Char) : Option (List Char) :=
  match cs with
  | 'T' :: rest => some rest
  | 't' :: rest => some rest
  | c :: rest => if isGap c then some (rest.dropWhile isGap) else none
  | [] => none

def offset? (cs : List Char) : Option Nat := do
  let rest := if cs.head? == some '.' then (cs.drop 1).dropWhile Char.isDigit else cs
  match rest, rest.dropWhile isGap with
  | [], _ => return 0
  | _, ['Z'] => return 0
  | _, sign :: rest =>
      if sign != '+' && sign != '-' then none
      let (hours, rest) ← digitRun? 1 2 rest
      match rest with
      | [] => return hours * 60
      | rest => do
          let (minutes, rest) ← digitRun? 2 2 (← after? ':' rest)
          if rest.isEmpty then return hours * 60 + minutes else none
  | _, [] => none

def clockTime? (cs : List Char) : Option ClockTime := do
  let (hour, rest) ← digitRun? 1 2 cs
  let (minute, rest) ← digitRun? 2 2 (← after? ':' rest)
  let (second, rest) ← digitRun? 2 2 (← after? ':' rest)
  return ⟨hour, minute, second, ← offset? rest⟩

/-- The moment that a text looks like. A date by itself has two digits for month and day. -/
def moment? (cs : List Char) : Option Moment := do
  let (year, rest) ← digitRun? 4 4 cs
  let (month, rest) ← digitRun? 1 2 (← after? '-' rest)
  let (day, rest) ← digitRun? 1 2 (← after? '-' rest)
  if rest.isEmpty then
    if cs.length == 10 then return ⟨year, month, day, none⟩ else none
  else return ⟨year, month, day, some (← clockTime? (← afterDate? rest))⟩

/-! # The calendar -/

def isLeapYear (year : Nat) : Bool :=
  year % 4 == 0 && (year % 100 != 0 || year % 400 == 0)

def daysIn (year month : Nat) : Nat :=
  if month == 2 then (if isLeapYear year then 29 else 28)
  else if [4, 6, 9, 11].contains month then 30
  else 31

def ClockTime.isReal (time : ClockTime) : Bool :=
  time.hour < 24 && time.minute < 60 && time.second < 60 && time.offset < 1440

def Moment.isReal (moment : Moment) : Bool :=
  1 ≤ moment.year && 1 ≤ moment.month && moment.month ≤ 12 && 1 ≤ moment.day &&
    moment.day ≤ daysIn moment.year moment.month && (moment.time.map ClockTime.isReal).getD true

def Moment.typeName (moment : Moment) : String :=
  if moment.time.isSome then "datetime" else "date"

end Yaml
end Stencil
