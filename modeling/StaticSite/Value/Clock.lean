import StaticSite.Value.Day

/-!
# Clocks

The day and moment that a clock shows which counts seconds in universal time from the first day of
1970.
-/

namespace StaticSite

/-- The year of a day that is counted from the first of a year, and its number within that year.
`fuel` bounds the number of years gone through. -/
def yearOf : (fuel : Nat) → (year day : Nat) → Nat × Nat
  | 0, year, day => (year, day)
  | fuel + 1, year, day =>
    let length := if Day.isLeap year then 366 else 365
    if day < length then (year, day) else yearOf fuel (year + 1) (day - length)

/-- The month of a day that is counted from the first of a month, and its number within that month.
`fuel` bounds the number of months gone through. -/
def monthOf (year : Nat) : (fuel : Nat) → (month day : Nat) → Nat × Nat
  | 0, month, day => (month, day)
  | fuel + 1, month, day =>
    let length := Day.daysIn year month
    if day < length then (month, day) else monthOf year fuel (month + 1) (day - length)

/-- The day with a number, the first day of 1970 having the number zero. -/
def Day.ofNumber (n : Nat) : Day :=
  let (year, rest) := yearOf n 1970 n
  let (month, rest) := monthOf year 11 1 rest
  ⟨year, month, rest + 1⟩

/-- The moment that a clock shows after some seconds and millionths. -/
def Moment.ofSeconds (seconds micro : Nat) : Moment where
  date := Day.ofNumber (seconds / 86400)
  hour := seconds / 3600 % 24
  minute := seconds / 60 % 60
  second := seconds % 60
  micro := micro
  offset := none

example : Day.ofNumber 0 = ⟨1970, 1, 1⟩ := by decide

example : Day.ofNumber 59 = ⟨1970, 3, 1⟩ := by decide

end StaticSite
