import StaticSite.Text.Hex

/-!
# Days and moments

A day of the calendar and a moment within one, as a configuration file may name them, and the forms
they are written in.
-/

namespace StaticSite

/-- A day of the calendar. -/
structure Day where
  /-- The year, from 1 to 9999. -/
  year : Nat
  /-- The month, from 1 to 12. -/
  month : Nat
  /-- The day of the month, from 1 on. -/
  day : Nat
deriving DecidableEq, Repr

/-- A moment of a day. -/
structure Moment where
  /-- The day. -/
  date : Day
  /-- The hour, from 0 to 23. -/
  hour : Nat
  /-- The minute, from 0 to 59. -/
  minute : Nat
  /-- The second, from 0 to 59. -/
  second : Nat
  /-- The millionths of a second. -/
  micro : Nat
  /-- The distance of the clock from universal time in seconds, if the moment tells it. -/
  offset : Option Int
deriving DecidableEq, Repr

/-- A number with zeros in front up to `width` digits. -/
def padded (width n : Nat) : String :=
  let digits := toString n
  String.ofList (List.replicate (width - digits.length) '0') ++ digits

namespace Day

/-- Whether a year has a twenty-ninth of February. -/
def isLeap (year : Nat) : Bool := year % 4 == 0 && (year % 100 != 0 || year % 400 == 0)

/-- The number of days of a month. -/
def daysIn (year month : Nat) : Nat :=
  if month == 2 then if isLeap year then 29 else 28
  else if month == 4 || month == 6 || month == 9 || month == 11 then 30
  else 31

/-- The number of a day, counted from the first day of the first year on. -/
def number (d : Day) : Nat :=
  let years := d.year - 1
  years * 365 + years / 4 - years / 100 + years / 400 +
    (List.range (d.month - 1)).foldl (fun days m => days + daysIn d.year (m + 1)) d.day

/-- Year, month and day with hyphens. -/
def iso (d : Day) : String :=
  padded 4 d.year ++ "-" ++ padded 2 d.month ++ "-" ++ padded 2 d.day

/-- The order of days. -/
def isBefore (a b : Day) : Bool :=
  a.year < b.year ||
    (a.year == b.year && (a.month < b.month || (a.month == b.month && a.day < b.day)))

/-- How a message shows the day. -/
def shown (d : Day) : String :=
  "datetime.date(" ++ toString d.year ++ ", " ++ toString d.month ++ ", " ++ toString d.day ++ ")"

end Day

namespace Moment

/-- The distance from universal time: a sign, hours and minutes, and the seconds if there are
any. -/
def offsetText (offset : Int) : String :=
  let size := offset.natAbs
  (if offset < 0 then "-" else "+") ++ padded 2 (size / 3600) ++ ":" ++ padded 2 (size / 60 % 60) ++
    (if size % 60 == 0 then "" else ":" ++ padded 2 (size % 60))

/-- Day and time of day, with `separator` between them. -/
def iso (separator : String) (m : Moment) : String :=
  m.date.iso ++ separator ++ padded 2 m.hour ++ ":" ++ padded 2 m.minute ++ ":" ++
    padded 2 m.second ++
    (if m.micro == 0 then "" else "." ++ padded 6 m.micro) ++
    (match m.offset with
    | none => ""
    | some offset => offsetText offset)

/-- The millionths of a second from the first day of the first year, in universal time if the
distance from it is known, as far as the order of moments needs them: every month counts as 31
days. -/
def rank (m : Moment) : Int :=
  let days : Int := (m.date.year * 12 + m.date.month) * 31 + m.date.day
  ((days * 24 + m.hour) * 60 + m.minute) * 60000000 + m.second * 1000000 + m.micro

/-- The millionths of a second from the first day of the first year on, in universal time if the
distance from it is known. -/
def instant (m : Moment) : Int :=
  (((m.date.number * 24 + m.hour) * 60 + m.minute) * 60 + m.second - m.offset.getD 0) *
    1000000 + m.micro

/-- The order of moments that tell the same distance from universal time. -/
def isBefore (a b : Moment) : Bool := a.rank < b.rank

/-- How a message shows a distance from universal time. -/
def offsetShown (offset : Int) : String :=
  if offset == 0 then "datetime.timezone.utc"
  else
    let days := Int.fdiv offset 86400
    let seconds := Int.fmod offset 86400
    "datetime.timezone(datetime.timedelta(" ++
      (if days == 0 then "" else "days=" ++ toString days ++ (if seconds == 0 then "" else ", ")) ++
      (if seconds == 0 then "" else "seconds=" ++ toString seconds) ++ "))"

/-- How a message shows the moment: the seconds and their millionths are left out if they are
zero. -/
def shown (m : Moment) : String :=
  let numbers := [m.date.year, m.date.month, m.date.day, m.hour, m.minute] ++
    (if m.micro != 0 then [m.second, m.micro] else if m.second != 0 then [m.second] else [])
  "datetime.datetime(" ++ ", ".intercalate (numbers.map toString) ++
    (match m.offset with
    | none => ""
    | some offset => ", tzinfo=" ++ offsetShown offset) ++ ")"

end Moment

end StaticSite
