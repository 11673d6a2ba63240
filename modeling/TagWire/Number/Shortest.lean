import TagWire.Number.Double

/-!
# Shortest decimal text

The text of a double has the fewest digits that read back as the same double. Among those the nearest is
taken, and of two equally near the greater. It is always positional.
-/

namespace TagWire

/-- The decimal number `digits · 10 ^ exponent`. -/
structure Decimal where
  digits : Nat
  exponent : Int
deriving DecidableEq, Repr

namespace Decimal

/-- A decimal in positional notation: no exponent, and no point after a whole number. -/
def positional (d : Decimal) : List Char :=
  let cs := Nat.toDigits 10 d.digits
  if 0 ≤ d.exponent then cs ++ List.replicate d.exponent.toNat '0'
  else
    let places := (-d.exponent).toNat
    if places < cs.length then cs.take (cs.length - places) ++ '.' :: cs.drop (cs.length - places)
    else '0' :: '.' :: (List.replicate (places - cs.length) '0' ++ cs)

end Decimal

namespace Double

/--
The real numbers that round to one double, over a common denominator: the double itself is `value / unit`,
the ends of the interval are `low / unit` and `high / unit`, and they belong to it when `closed`.
-/
structure Interval where
  low : Nat
  value : Nat
  high : Nat
  unit : Nat
  closed : Bool

/-- The interval of a finite double other than zero. Its ends lie half way to the neighbours; below a power
of two the lower neighbour is only half as far. An end rounds to the double itself if the fraction is
even. -/
def interval (x : Double) : Interval :=
  let normal := x.biasedExponent ≠ 0
  let m := if normal then x.fraction + 0x10000000000000 else x.fraction
  let below := if x.fraction = 0 ∧ 1 < x.biasedExponent then 1 else 2
  -- the double is `m · 2 ^ (e - 1075)`, so `4 * m` counts quarters of the distance between neighbours
  let e := if normal then x.biasedExponent else 1
  let up := Nat.pow 2 (e - 1077)
  ⟨(4 * m - below) * up, 4 * m * up, (4 * m + 2) * up, Nat.pow 2 (1077 - e), m % 2 = 0⟩

/-- Whether `n / unit` rounds to the double. -/
def Interval.contains (i : Interval) (n : Nat) : Bool :=
  if i.closed then i.low ≤ n && n ≤ i.high else i.low < n && n < i.high

/-- The multiple of `10 ^ exponent` nearest to the double among its two neighbours there that round to it. -/
def Interval.onGrid? (i : Interval) (exponent : Int) : Option Decimal :=
  -- over the denominator `unit · scale` the grid has the step `step`
  let scale := Nat.pow 10 (-exponent).toNat
  let step := Nat.pow 10 exponent.toNat * i.unit
  let scaled : Interval := ⟨i.low * scale, i.value * scale, i.high * scale, i.unit * scale, i.closed⟩
  let floor := scaled.value / step
  let rest := scaled.value % step
  let down := scaled.contains (floor * step)
  let up := scaled.contains ((floor + 1) * step)
  if up && (!down || step ≤ 2 * rest) then some ⟨floor + 1, exponent⟩
  else if down then some ⟨floor, exponent⟩
  else none

/-- The shortest decimal that reads back as a finite double other than zero: a point on the coarsest decimal
grid that has one in the interval. -/
def shortest (x : Double) : Decimal :=
  let i := x.interval
  ((List.range 634).findSome? fun k : Nat => i.onGrid? (309 - Int.ofNat k)).getD ⟨0, 0⟩

/-- The digits of a double without its sign. -/
def magnitudeText (x : Double) : List Char :=
  if x.isInfinite then "inf".toList
  else if x.isZero then ['0']
  else x.shortest.positional

/-- A double as text; the zero with a sign bit is `-0`. -/
def text (x : Double) : String :=
  if x.isNaN then "NaN"
  else String.ofList (if x.isNegative then '-' :: x.magnitudeText else x.magnitudeText)

/-- A double with a sign in front in any case, as the imaginary part of a complex number is written. -/
def signedText (x : Double) : String :=
  if x.isNaN || x.isNegative then x.text else "+" ++ x.text

end Double

end TagWire
