import ShellFold.Text.Digits

/-!
# Dates and times

The dates and times of day that a document can hold. A `Date` is a day of the calendar and a `Time`
lies within a day by construction; `Moment.read?` reads a date, a time, or both from the front of a
text. Behind a date that no time follows it stops, so a date may stand in front of a comment.
-/

set_option autoImplicit false

namespace ShellFold

/-- Whether a year has a 29th of February. -/
def isLeapYear (year : Nat) : Bool := year % 4 = 0 && (year % 100 ≠ 0 || year % 400 = 0)

def daysOfMonth (year month : Nat) : Nat :=
  if month = 2 then if isLeapYear year then 29 else 28
  else if month ∈ [4, 6, 9, 11] then 30
  else 31

structure Date where
  year : Nat
  month : Nat
  day : Nat
  month_valid : 1 ≤ month ∧ month ≤ 12
  day_valid : 1 ≤ day ∧ day ≤ daysOfMonth year month
  deriving DecidableEq

/-- A time of day. A minute may have a 61st second. -/
structure Time where
  hour : Nat
  minute : Nat
  second : Nat
  /-- The digits of the fraction of a second. -/
  fraction : Text
  hour_valid : hour < 24
  minute_valid : minute < 60
  second_valid : second ≤ 60
  deriving DecidableEq

/-- A date, a time of day, or both. -/
inductive Moment
  | date (date : Date)
  | time (time : Time)
  /-- A time on a date, as many minutes ahead of universal time as `offset` says, if it is known. -/
  | instant (date : Date) (time : Time) (offset : Option Int)
  deriving DecidableEq

open Text (readWidth? expect?)

/-- The day of a year, month and day, if there is one. -/
def Date.of? (year month day : Nat) : Option Date :=
  if month_valid : 1 ≤ month ∧ month ≤ 12 then
    if day_valid : 1 ≤ day ∧ day ≤ daysOfMonth year month then
      some { year, month, day, month_valid, day_valid }
    else none
  else none

/-- The time of its parts, if there is one. -/
def Time.of? (hour minute second : Nat) (fraction : Text) : Option Time :=
  if hour_valid : hour < 24 then
    if minute_valid : minute < 60 then
      if second_valid : second ≤ 60 then
        some { hour, minute, second, fraction, hour_valid, minute_valid, second_valid }
      else none
    else none
  else none

/-- A date at the front of a text, as in `1979-05-27`. -/
def Date.read? (s : Text) : Option (Date × Text) := do
  let (year, s) ← readWidth? 4 s
  let (month, s) ← readWidth? 2 (← expect? '-' s)
  let (day, s) ← readWidth? 2 (← expect? '-' s)
  return (← Date.of? year month day, s)

/-- The digits behind a point, which are empty if there is no point with a digit behind it. -/
def readPart : Text → Text × Text
  | '.' :: rest =>
    match Text.readDigits? rest with
    | some (digits, rest) => (digits, rest)
    | none => ([], '.' :: rest)
  | s => ([], s)

/-- A time at the front of a text, as in `07:32:00.5`. -/
def Time.read? (s : Text) : Option (Time × Text) := do
  let (hour, s) ← readWidth? 2 s
  let (minute, s) ← readWidth? 2 (← expect? ':' s)
  let (second, s) ← readWidth? 2 (← expect? ':' s)
  let (fraction, s) := readPart s
  return (← Time.of? hour minute second fraction, s)

/-- A distance from universal time at the front of a text, as in `Z` and `-07:00`. -/
def readOffset? : Text → Option (Int × Text)
  | [] => none
  | c :: s =>
    if c = 'Z' ∨ c = 'z' then some (0, s)
    else if c = '+' ∨ c = '-' then do
      let (hours, s) ← readWidth? 2 s
      let (minutes, s) ← readWidth? 2 (← expect? ':' s)
      let offset : Int := 60 * hours + minutes
      if hours < 24 ∧ minutes < 60 then return (if c = '-' then -offset else offset, s) else none
    else none

namespace Moment

/-- What follows a date: a time behind `T` or a blank. -/
def readOnDate? (day : Date) : Text → Option (Moment × Text)
  | [] => none
  | c :: s => do
    if c ≠ 'T' ∧ c ≠ 't' ∧ c ≠ ' ' then none
    let (clock, s) ← Time.read? s
    match readOffset? s with
    | some (offset, s) => return (instant day clock (some offset), s)
    | none => return (instant day clock none, s)

/-- A date, a time, or both at the front of a text. -/
def read? (s : Text) : Option (Moment × Text) :=
  match Date.read? s with
  | some (day, rest) => some ((readOnDate? day rest).getD (date day, rest))
  | none => (Time.read? s).map fun (clock, rest) => (time clock, rest)

end Moment

end ShellFold
