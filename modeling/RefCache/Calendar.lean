/-! The Gregorian calendar without beginning or end: dates, their day numbers counted from
1 January 1970, and the date some years earlier. -/

namespace RefCache

structure Date where
  year : Int
  month : Nat
  day : Nat
  deriving DecidableEq, Repr

def isLeapYear (year : Int) : Bool := year % 4 == 0 && (year % 100 != 0 || year % 400 == 0)

def monthLength (year : Int) (month : Nat) : Nat :=
  if month = 2 then (if isLeapYear year then 29 else 28)
  else if month = 4 ∨ month = 6 ∨ month = 9 ∨ month = 11 then 30
  else 31

/-- Days from 1 January of year 1 to 1 January of the year. -/
def daysBeforeYear (year : Int) : Int :=
  365 * (year - 1) + (year - 1) / 4 - (year - 1) / 100 + (year - 1) / 400

def daysBeforeMonth (year : Int) : Nat → Nat
  | 0 => 0
  | 1 => 0
  | month + 1 => daysBeforeMonth year month + monthLength year month

/-- The day number of 1 January 1970, counted from 1 January of year 1. -/
def unixEpochDay : Int := daysBeforeYear 1970

namespace Date

def Valid (d : Date) : Prop :=
  1 ≤ d.month ∧ d.month ≤ 12 ∧ 1 ≤ d.day ∧ d.day ≤ monthLength d.year d.month

def dayNumber (d : Date) : Int :=
  daysBeforeYear d.year + daysBeforeMonth d.year d.month + d.day - 1 - unixEpochDay

/-- The year of the day that lies `n` days after 1 January of year 1: 400 years have 146097 days,
so the quotient misses the year by one at most. -/
def yearOfDay (n : Int) : Int :=
  let guess := n * 400 / 146097 + 1
  if n < daysBeforeYear guess then guess - 1
  else if daysBeforeYear (guess + 1) ≤ n then guess + 1
  else guess

/-- Month and day of month of the `n`-th day from the start of the first month of the list. -/
def monthAndDay (year : Int) : List Nat → Nat → Nat × Nat
  | [], n => (12, n + 1)
  | month :: later, n =>
    if n < monthLength year month then (month, n + 1)
    else monthAndDay year later (n - monthLength year month)

def ofDayNumber (n : Int) : Date :=
  let year := yearOfDay (n + unixEpochDay)
  let md := monthAndDay year [1, 2, 3, 4, 5, 6, 7, 8, 9, 10, 11, 12]
    (n + unixEpochDay - daysBeforeYear year).toNat
  ⟨year, md.1, md.2⟩

/-- The same day of the same month some years earlier; a day that month lacks becomes its last. -/
def yearsEarlier (years : Nat) (d : Date) : Date :=
  let year := d.year - years
  ⟨year, d.month, min d.day (monthLength year d.month)⟩

end Date

end RefCache
