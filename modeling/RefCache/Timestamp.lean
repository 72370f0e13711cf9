import RefCache.Calendar
import RefCache.Text.Decimal

/-! Instants: whole seconds since the start of 1970 and the nanoseconds after them. A leap second
is the sixtieth second of its minute drawn out: its nanoseconds run on from one to two billion.
Instants are ordered by seconds, then by nanoseconds. -/

namespace RefCache

structure Timestamp where
  seconds : Int
  nanos : Nat
  deriving DecidableEq, Repr

namespace Timestamp

instance : Inhabited Timestamp := ⟨⟨0, 0⟩⟩

instance : LE Timestamp :=
  ⟨fun a b => a.seconds < b.seconds ∨ (a.seconds = b.seconds ∧ a.nanos ≤ b.nanos)⟩

instance : DecidableLE Timestamp := fun a b =>
  inferInstanceAs (Decidable (a.seconds < b.seconds ∨ (a.seconds = b.seconds ∧ a.nanos ≤ b.nanos)))

instance : Max Timestamp := maxOfLe

def ofMicros (micros : Int) : Timestamp :=
  ⟨micros / 1000000, (micros % 1000000).toNat * 1000⟩

/-- Cut to whole microseconds. -/
def toMicros (t : Timestamp) : Int := t.seconds * 1000000 + t.nanos / 1000

def firstYear : Int := -262143

/-- Midnight on 1 January of the first year. -/
def earliest : Timestamp := ⟨-8334601228800, 0⟩

/-- The last second of the last year. -/
def latestSecond : Int := 8210266876799

def Representable (t : Timestamp) : Prop :=
  earliest.seconds ≤ t.seconds ∧ t.seconds ≤ latestSecond ∧
    (t.nanos < 1000000000 ∨ (t.nanos < 2000000000 ∧ t.seconds % 60 = 59))

instance (t : Timestamp) : Decidable t.Representable := by unfold Representable; infer_instance

def dayNumber (t : Timestamp) : Int := t.seconds / 86400

def secondOfDay (t : Timestamp) : Nat := (t.seconds % 86400).toNat

def date (t : Timestamp) : Date := Date.ofDayNumber t.dayNumber

/-- The same time of day on the date some years earlier, or the earliest instant if that year is
before the first. -/
def yearsEarlier (years : Nat) (t : Timestamp) : Timestamp :=
  let d := t.date.yearsEarlier years
  if d.year < firstYear then earliest
  else ⟨d.dayNumber * 86400 + t.secondOfDay, t.nanos⟩

/-- Four digits, and a sign in front of a year that is negative or needs more. -/
def yearChars (year : Int) : List Char :=
  if 0 ≤ year ∧ year ≤ 9999 then padded 4 year.toNat
  else (if year < 0 then '-' else '+') :: padded 4 year.natAbs

/-- Nothing, or a point and three, six or nine digits, the fewest that are exact. -/
def fractionChars (nanos : Nat) : List Char :=
  if nanos = 0 then []
  else if nanos % 1000000 = 0 then '.' :: padded 3 (nanos / 1000000)
  else if nanos % 1000 = 0 then '.' :: padded 6 (nanos / 1000)
  else '.' :: padded 9 nanos

/-- Date and time of day; a leap second is written as second 60. -/
def clockChars (t : Timestamp) : List Char :=
  let d := t.date
  let second := t.secondOfDay % 60 + t.nanos / 1000000000
  yearChars d.year ++ '-' :: padded 2 d.month ++ '-' :: padded 2 d.day
    ++ 'T' :: padded 2 (t.secondOfDay / 3600) ++ ':' :: padded 2 (t.secondOfDay / 60 % 60)
    ++ ':' :: padded 2 second ++ fractionChars (t.nanos % 1000000000)

def text (t : Timestamp) : String := String.ofList (t.clockChars ++ ['Z'])

/-- The form with a numeric offset. -/
def offsetText (t : Timestamp) : String :=
  String.ofList (t.clockChars ++ ['+', '0', '0', ':', '0', '0'])

end Timestamp

/-- How many years of changes a category reads that has never been read. -/
def coldStartYears : Nat := 10

/-- The high-water mark of a category that has never been read. -/
def coldStartMark (now : Timestamp) : Timestamp := now.yearsEarlier coldStartYears

end RefCache
