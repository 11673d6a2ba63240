/-!
# Instants

An instant is a whole second of Unix time and a count of nanoseconds. A count from 10⁹ on lies in a leap second
behind that second.
-/

namespace TagWire

/-- A point in time that the calendar can represent. -/
structure Instant where
  /-- Whole seconds since the first of January 1970. -/
  seconds : Int
  nanos : Nat
  first_le : -8334601228800 ≤ seconds
  le_last : seconds ≤ 8210266876799
  nanos_lt : nanos < 2000000000
deriving DecidableEq

namespace Instant

/-- The instant with the given seconds and nanoseconds, if there is one. A leap second is taken only behind the last
second of a minute. -/
def ofUnix? (seconds : Int) (nanos : Nat) : Option Instant :=
  if h : -8334601228800 ≤ seconds ∧ seconds ≤ 8210266876799 ∧ nanos < 2000000000 ∧
      (1000000000 ≤ nanos → seconds % 60 = 59) then
    some ⟨seconds, nanos, h.1, h.2.1, h.2.2.1⟩
  else none

def epoch : Instant := ⟨0, 0, by decide, by decide, by decide⟩

instance : Inhabited Instant := ⟨epoch⟩

theorem ofUnix?_self {t : Instant} (h : t.nanos < 1000000000) : ofUnix? t.seconds t.nanos = some t :=
  dif_pos ⟨t.first_le, t.le_last, t.nanos_lt, fun hl => absurd h (Nat.not_lt.2 hl)⟩

end Instant

end TagWire
