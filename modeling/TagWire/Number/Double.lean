/-!
# Double-precision numbers

A double is the 64 bits of its binary interchange form: a sign, eleven bits of exponent and 52 of fraction.
Bits are kept as they are, so that not-a-number values keep theirs; comparison in the arithmetic sense is
`equal`.
-/

namespace TagWire

/-- A double, given by its bits. -/
structure Double where
  bits : UInt64
deriving DecidableEq, Inhabited, Repr

namespace Double

def zero : Double := ⟨0⟩

def isNegative (x : Double) : Bool := 0x8000000000000000 ≤ x.bits.toNat

/-- The eleven bits of the biased exponent. -/
def biasedExponent (x : Double) : Nat := x.bits.toNat / 0x10000000000000 % 0x800

/-- The 52 bits of the fraction. -/
def fraction (x : Double) : Nat := x.bits.toNat % 0x10000000000000

def isNaN (x : Double) : Bool := x.biasedExponent = 2047 && x.fraction ≠ 0

def isInfinite (x : Double) : Bool := x.biasedExponent = 2047 && x.fraction = 0

def isZero (x : Double) : Bool := x.biasedExponent = 0 && x.fraction = 0

/-- Equality of numbers: both zeros are equal, and not-a-number equals nothing. -/
def equal (x y : Double) : Bool :=
  !x.isNaN && !y.isNaN && ((x.isZero && y.isZero) || x.bits = y.bits)

/-- The quotient of a number by `2 ^ s`, rounded to the nearest integer, a half to the even one. -/
def roundShift (n s : Nat) : Nat :=
  let unit := Nat.pow 2 s
  let q := n / unit
  let twice := 2 * (n % unit)
  if unit < twice || (twice = unit && q % 2 = 1) then q + 1 else q

/-- The bits of the double nearest to a natural number below `2 ^ 1023`, of two equally near the one with an
even fraction. A fraction rounded up to `2 ^ 53` moves the exponent by its carry. -/
def bitsOfNat (n : Nat) : Nat :=
  if n = 0 then 0
  else
    let l := n.log2
    let significand := if l ≤ 52 then n * Nat.pow 2 (52 - l) else roundShift n (l - 52)
    (l + 1022) * 0x10000000000000 + significand

/-- The double nearest to an integer. -/
def ofInt (n : Int) : Double :=
  ⟨UInt64.ofNat (bitsOfNat n.natAbs + if n < 0 then 0x8000000000000000 else 0)⟩

end Double

end TagWire
