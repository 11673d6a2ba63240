import TagWire.Time.Instant

/-!
# Calendar text of instants

An instant prints as a date of the Gregorian calendar, extended to all years, and a time of day in UTC.
-/

namespace TagWire

structure CivilDate where
  year : Int
  month : Nat
  day : Nat
deriving DecidableEq, Repr

namespace CivilDate

/--
The date of a day, counted from the first of January 1970. Years are taken to begin in March, so that the
leap day comes last, and days are counted within cycles of 400 years, which all have the same 146097 days.
-/
def ofEpochDay (epochDay : Int) : CivilDate :=
  let d := epochDay + 719468
  let cycle := d / 146097
  let dayOfCycle := (d % 146097).toNat
  let yearOfCycle := (dayOfCycle - dayOfCycle / 1460 + dayOfCycle / 36524 - dayOfCycle / 146096) / 365
  let dayOfYear := dayOfCycle - (365 * yearOfCycle + yearOfCycle / 4 - yearOfCycle / 100)
  let monthFromMarch := (5 * dayOfYear + 2) / 153
  let day := dayOfYear - (153 * monthFromMarch + 2) / 5 + 1
  let month := if monthFromMarch < 10 then monthFromMarch + 3 else monthFromMarch - 9
  let year := cycle * 400 + yearOfCycle + if month ≤ 2 then 1 else 0
  ⟨year, month, day⟩

/-- A number with leading zeros up to a least width. -/
def padded (width n : Nat) : List Char :=
  let cs := Nat.toDigits 10 n
  List.replicate (width - cs.length) '0' ++ cs

/-- A year has four digits, and outside of 0 to 9999 a sign and at least four. -/
def yearText (year : Int) : List Char :=
  if year < 0 then '-' :: padded 4 year.natAbs
  else if 9999 < year then '+' :: padded 4 year.natAbs
  else padded 4 year.natAbs

def text (d : CivilDate) : List Char :=
  yearText d.year ++ '-' :: padded 2 d.month ++ '-' :: padded 2 d.day

end CivilDate

namespace Instant

open CivilDate (padded)

/-- Nanoseconds below 10⁹ as a decimal fraction of 0, 3, 6 or 9 digits, the fewest that lose nothing. -/
def fractionText (nanos : Nat) : List Char :=
  if nanos = 0 then []
  else if nanos % 1000000 = 0 then '.' :: padded 3 (nanos / 1000000)
  else if nanos % 1000 = 0 then '.' :: padded 6 (nanos / 1000)
  else '.' :: padded 9 nanos

/-- Date, time of day and zone. A leap second is counted as one more than the second before it, so that there may be a
second 60. -/
def text (t : Instant) : String :=
  let ofDay := (t.seconds % 86400).toNat
  let leap := 1000000000 ≤ t.nanos
  let second := ofDay % 60 + if leap then 1 else 0
  let nanos := if leap then t.nanos - 1000000000 else t.nanos
  String.ofList <|
    (CivilDate.ofEpochDay (t.seconds / 86400)).text ++ ' ' :: padded 2 (ofDay / 3600) ++
      ':' :: padded 2 (ofDay / 60 % 60) ++ ':' :: padded 2 second ++ fractionText nanos ++ " UTC".toList

end Instant

end TagWire
