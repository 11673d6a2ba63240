import TagWire.Time.Instant

/-!
# Time stamps

On the wire an instant is a count of seconds since the first of January 1904 and a binary fraction of a
second in units of 2⁻⁶⁴.
-/

namespace TagWire

/-- An instant as it is stored. -/
structure Stamp where
  seconds : Int64
  fraction : UInt64
deriving DecidableEq, Inhabited, Repr

namespace Stamp

/-- Seconds from the first of January 1904 to the start of Unix time. -/
def epochOffset : Int := 2082844800

/-- The stamp of an instant. The fraction is rounded down; a leap second counts as the last nanosecond of
its second. -/
def ofInstant (t : Instant) : Stamp :=
  ⟨Int64.ofInt (t.seconds + epochOffset),
    UInt64.ofNat (min t.nanos 999999999 * 0x10000000000000000 / 1000000000)⟩

/-- The fraction in nanoseconds, rounded to the nearest one, a half upwards. It may be a full second. -/
def nanos (s : Stamp) : Nat :=
  -- the fraction stands last, so that nothing is computed as long as it is a variable
  (0x8000000000000000 + 1000000000 * s.fraction.toNat) / 0x10000000000000000

/-- An integer in 64 bits, if it fits. -/
def fit64? (n : Int) : Option Int64 :=
  if -0x8000000000000000 ≤ n ∧ n < 0x8000000000000000 then some (.ofInt n) else none

/-- The instant with the second of a stamp, a carry added to it, and the given nanoseconds. There is none if the
difference or the sum does not fit into 64 bits, or if it lies outside of the calendar. -/
def carried? (s : Stamp) (carry : Int) (nanos : Nat) : Option Instant := do
  let seconds ← fit64? (s.seconds.toInt - epochOffset)
  let unix ← fit64? (seconds.toInt + carry)
  Instant.ofUnix? unix.toInt nanos

/-- The instant of a stamp to the nanosecond, if there is one. -/
def instant? (s : Stamp) : Option Instant :=
  if 1000000000 ≤ s.nanos then s.carried? 1 (s.nanos - 1000000000) else s.carried? 0 s.nanos

end Stamp

end TagWire
