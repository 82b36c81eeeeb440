import DocTable.Number.Rounding
import DocTable.Text.Digit

/-!
Days and times of day, as they are written in marked-up text and as messages show them.
-/

namespace DocTable.Markup

/-- A time of day, to millionths of a second, with the minutes by which its zone is ahead. -/
structure Clock where
  hour : Nat
  minute : Nat
  second : Nat
  millionths : Nat
  zone : Option Int

/-- A day, or a time of a day. -/
structure Moment where
  year : Nat
  month : Nat
  day : Nat
  clock : Option Clock

namespace Moment

private def twoDigits? : List Char → Option (Nat × List Char)
  | a :: b :: rest =>
    if a.isDigit && b.isDigit then some (Nat.ofDigitChars 10 [a, b] 0, rest) else none
  | _ => none

private def oneOrTwoDigits? : List Char → Option (Nat × List Char)
  | a :: rest =>
    match twoDigits? (a :: rest) with
    | some found => some found
    | none => if a.isDigit then some (Nat.ofDigitChars 10 [a] 0, rest) else none
  | [] => none

private def after? (c : Char) : List Char → Option (List Char)
  | d :: rest => if c = d then some rest else none
  | [] => none

private def isPadding (c : Char) : Bool :=
  c = ' ' || c = '\t'

/-- Reads the zone at the end of a time: nothing, a letter for the common time, or hours and
minutes with a sign. -/
def readZone? (cs : List Char) : Option (Option Int) :=
  match cs with
  | [] => some none
  | _ =>
    match cs.dropWhile isPadding with
    | ['Z'] => some (some 0)
    | sign :: rest => do
      if sign ≠ '+' ∧ sign ≠ '-' then failure
      let (hours, rest) ← oneOrTwoDigits? rest
      let minutes ← match rest with
        | [] => some 0
        | ':' :: rest =>
          match twoDigits? rest with
          | some (minutes, []) => some minutes
          | _ => none
        | _ => none
      let ahead : Int := hours * 60 + minutes
      return some (if sign = '-' then -ahead else ahead)
    | [] => none

/-- The first six digits after the point, as millionths. -/
def millionthsOf (digits : List Char) : Nat :=
  let kept := digits.take 6
  Nat.ofDigitChars 10 kept 0 * Nat.pow 10 (6 - kept.length)

/-- Reads a time of day to the end of a text. -/
def readClock? (cs : List Char) : Option Clock := do
  let (hour, cs) ← oneOrTwoDigits? cs
  let (minute, cs) ← twoDigits? (← after? ':' cs)
  let (second, cs) ← twoDigits? (← after? ':' cs)
  let (fraction, cs) := match cs with
    | '.' :: rest => (rest.takeWhile Char.isDigit, rest.dropWhile Char.isDigit)
    | cs => ([], cs)
  return ⟨hour, minute, second, millionthsOf fraction, ← readZone? cs⟩

/-- Reads the form of a day or a time; whether there is such a day or time is another question. -/
def read? (cs : List Char) : Option Moment := do
  let year := cs.take 4
  if year.length < 4 ∨ !year.all Char.isDigit then failure
  let (month, cs) ← oneOrTwoDigits? (← after? '-' (cs.drop 4))
  let (day, cs) ← oneOrTwoDigits? (← after? '-' cs)
  let moment := Moment.mk (Nat.ofDigitChars 10 year 0) month day
  match cs with
  | [] => return moment none
  | c :: rest =>
    if c = 'T' ∨ c = 't' then return moment (some (← readClock? rest))
    else if isPadding c then return moment (some (← readClock? (rest.dropWhile isPadding)))
    else failure

/-- Whether a plain text is read as a day or a time: days need two digits for month and day. -/
def isStandard (cs : List Char) : Bool :=
  match read? cs with
  | some m => m.clock.isSome || cs.length = 10
  | none => false

def isLeap (year : Nat) : Bool :=
  year % 4 = 0 && (year % 100 ≠ 0 || year % 400 = 0)

/-- The number of days of a month. -/
def daysIn (year month : Nat) : Nat :=
  if month = 2 then (if isLeap year then 29 else 28)
  else if month = 4 ∨ month = 6 ∨ month = 9 ∨ month = 11 then 30
  else 31

/-- Whether there is such a time of day. Zones are less than a day ahead or behind. -/
def clockIsReal (c : Clock) : Bool :=
  c.hour < 24 && c.minute < 60 && c.second < 60 &&
    (match c.zone with
      | none => true
      | some minutes => minutes.natAbs < 1440)

/-- Whether there is such a day and time of day. -/
def isReal (m : Moment) : Bool :=
  1 ≤ m.year && 1 ≤ m.month && m.month ≤ 12 && 1 ≤ m.day && m.day ≤ daysIn m.year m.month &&
    (match m.clock with
      | none => true
      | some c => clockIsReal c)

private def listed (ns : List Nat) : String :=
  ", ".intercalate (ns.map naturalText)

/-- A zone, as messages show it. -/
def zoneText (minutes : Int) : String :=
  if minutes = 0 then "datetime.timezone.utc"
  else
    let span :=
      if 0 < minutes then "seconds=" ++ integerText (minutes * 60)
      else "days=-1, seconds=" ++ integerText (86400 + minutes * 60)
    "datetime.timezone(datetime.timedelta(" ++ span ++ "))"

/-- The name of the kind of a moment: a day, or a time. -/
def kind (m : Moment) : String :=
  if m.clock.isSome then "datetime" else "date"

/-- A moment, as messages show it. Seconds and their parts are left out if nothing but zeros
follows. -/
def shown (m : Moment) : String :=
  match m.clock with
  | none => "datetime.date(" ++ listed [m.year, m.month, m.day] ++ ")"
  | some c =>
    let small :=
      if c.millionths ≠ 0 then [c.second, c.millionths]
      else if c.second ≠ 0 then [c.second]
      else []
    let zone := match c.zone with
      | none => ""
      | some minutes => ", tzinfo=" ++ zoneText minutes
    "datetime.datetime(" ++ listed ([m.year, m.month, m.day, c.hour, c.minute] ++ small) ++
      zone ++ ")"

end Moment

end DocTable.Markup
