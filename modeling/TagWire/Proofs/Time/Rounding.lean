import Mathlib.Algebra.Order.Round
import Mathlib.Data.Prod.Lex
import Mathlib.Data.Rat.Floor
import Mathlib.Tactic.Ring
import TagWire.Proofs.Wire.Readers

/-!
# Stamps as points in time

A stamp names an exact point in time, a rational number of seconds. It is read as the nanosecond nearest to
this point, and only what the calendar cannot represent is refused.
-/

namespace TagWire

namespace Instant

/-- Nanoseconds since the start of Unix time. -/
def unixNanos (t : Instant) : Int := t.seconds * 1000000000 + t.nanos

/-- The second of an instant and its part of it, in the order of time. -/
def position (t : Instant) : Int ×ₗ Nat := toLex (t.seconds, t.nanos)

end Instant

namespace Stamp

/-- The seconds of a stamp and its part of them, in the order of time. -/
def position (s : Stamp) : Int ×ₗ Nat := toLex (s.seconds.toInt, s.fraction.toNat)

/-- The point in time that a stamp names, in seconds of Unix time. -/
def time (s : Stamp) : Rat := s.seconds.toInt - epochOffset + s.fraction.toNat / 2 ^ 64

/-- The nanosecond of Unix time nearest to a stamp, the later one of two that are as near. -/
def nearest (s : Stamp) : Int := round (s.time * 10 ^ 9)

/-! ## Rounding -/

theorem round_fraction (s : Stamp) : round ((s.fraction.toNat / 2 ^ 64 : Rat) * 10 ^ 9) = s.nanos := by
  have h : (s.fraction.toNat / 2 ^ 64 : Rat) * 10 ^ 9 + 1 / 2 =
      (0x8000000000000000 + 1000000000 * s.fraction.toNat : Nat) / (0x10000000000000000 : Nat) := by
    push_cast
    ring
  rw [round_eq, h, Rat.floor_natCast_div_natCast, nanos]
  norm_cast

theorem nearest_eq (s : Stamp) : s.nearest = (s.seconds.toInt - epochOffset) * 1000000000 + s.nanos := by
  have h : s.time * 10 ^ 9 =
      ((s.seconds.toInt - epochOffset) * 1000000000 : Int) + (s.fraction.toNat / 2 ^ 64 : Rat) * 10 ^ 9 := by
    rw [time]
    push_cast
    ring
  rw [nearest, h, round_intCast_add, round_fraction]

theorem instant?_eq_some {s : Stamp} {t : Instant} :
    s.instant? = some t ↔ t.nanos < 1000000000 ∧ t.unixNanos = s.nearest := by
  rw [instant?_eq, Instant.ofUnix?_eq_some (Nat.mod_lt s.nanos (by decide)), Instant.unixNanos, nearest_eq]
  omega

theorem instant?_eq_none {s : Stamp} :
    s.instant? = none ↔ ¬ Instant.OnCalendar (s.nearest / 1000000000) := by
  have h : s.nearest / 1000000000 = s.seconds.toInt - epochOffset + s.nanos / 1000000000 := by
    rw [nearest_eq]
    omega
  rw [h, ← Instant.ofUnix?_eq_none (Nat.mod_lt s.nanos (by decide)), instant?_eq]

/-! ## Reading -/

theorem read_eq_ok_iff_nearest {s : Stamp} {t : Instant} :
    s.read = .ok t ↔ t.nanos < 1000000000 ∧ t.unixNanos = s.nearest := by
  rw [read_eq_ok, instant?_eq_some]

theorem read_eq_error {s : Stamp} :
    s.read = .error (.invalidTime s.seconds s.fraction) ↔ ¬ Instant.OnCalendar (s.nearest / 1000000000) := by
  rw [← instant?_eq_none, read]
  cases s.instant? <;> simp

theorem exists_read_eq_ok {s : Stamp} : (∃ t, s.read = .ok t) ↔ Instant.OnCalendar (s.nearest / 1000000000) := by
  rw [← not_iff_not, ← instant?_eq_none, read]
  cases s.instant? <;> simp

theorem read_ofInstant (t : Instant) : (ofInstant t).read = .ok t.withoutLeap := by
  rw [read_eq_ok, instant?_ofInstant]

/-! ## The order of time -/

theorem position_ofInstant_lt {t u : Instant} (hu : u.nanos < 1000000000) (h : t.position < u.position) :
    (ofInstant t).position < (ofInstant u).position := by
  simp only [Instant.position, Prod.Lex.toLex_lt_toLex] at h
  simp only [position, Prod.Lex.toLex_lt_toLex, toInt_seconds_ofInstant, toNat_fraction_ofInstant]
  -- fewer nanoseconds have a smaller fraction, as a nanosecond is more than a unit of it
  omega

end Stamp

/-- Stamps hold instants and their order, up to leap seconds, and any stamp is read as the nearest nanosecond,
in whichever order its bytes are and whatever comes after it. -/
theorem stamp_exact_and_nearest :
    (∀ t : Instant, t.nanos < 1000000000 → (Stamp.ofInstant t).read = .ok t) ∧
    (∀ t u : Instant, t.nanos < 1000000000 → u.nanos < 1000000000 → t.position < u.position →
      (Stamp.ofInstant t).position < (Stamp.ofInstant u).position) ∧
    (∀ t : Instant, 1000000000 ≤ t.nanos →
      ∃ u, (Stamp.ofInstant t).read = .ok u ∧ u.seconds = t.seconds ∧ u.nanos = 999999999) ∧
    (∀ s : Stamp,
      (∀ t, s.read = .ok t ↔ t.nanos < 1000000000 ∧ t.unixNanos = round (s.time * 10 ^ 9)) ∧
      ((∃ t, s.read = .ok t) ↔ Instant.OnCalendar (round (s.time * 10 ^ 9) / 1000000000)) ∧
      (s.read = .error (.invalidTime s.seconds s.fraction) ↔
        ¬ Instant.OnCalendar (round (s.time * 10 ^ 9) / 1000000000)) ∧
      ∀ order rest free,
        readInstant order ⟨stampBytes order s ++ rest, free⟩ = s.read.map fun t => (t, ⟨rest, free⟩)) := by
  refine ⟨fun t h => ?_, fun t u _ hu h => Stamp.position_ofInstant_lt hu h, fun t h => ?_, fun s => ?_⟩
  · rw [Stamp.read_ofInstant, Instant.withoutLeap_of_lt h]
  · exact ⟨t.withoutLeap, Stamp.read_ofInstant t, rfl, by rw [Instant.withoutLeap_nanos]; omega⟩
  · exact ⟨fun t => Stamp.read_eq_ok_iff_nearest, Stamp.exists_read_eq_ok, Stamp.read_eq_error,
      fun order rest free => readInstant_stampBytes order rest s free⟩

/-- The nanoseconds before and after a second, a leap second in the middle of a minute, a stamp that is carried into
the next second, and the first stamp of all. -/
theorem stamp_exact_and_nearest_edges :
    let before : Instant := ⟨1699999999, 999999999, by decide, by decide, by decide⟩
    let after : Instant := ⟨1700000000, 0, by decide, by decide, by decide⟩
    let leap : Instant := ⟨1700000020, 1500000000, by decide, by decide, by decide⟩
    (Stamp.ofInstant before).read = .ok before ∧
    (Stamp.ofInstant before).position < (Stamp.ofInstant after).position ∧
    (∃ u, (Stamp.ofInstant leap).read = .ok u ∧ u.seconds = 1700000020 ∧ u.nanos = 999999999) ∧
    Stamp.read ⟨2082844799, 0xffffffffffffffff⟩ = .ok .epoch ∧
    Stamp.read ⟨Int64.minValue, 0⟩ = .error (.invalidTime Int64.minValue 0) := by
  have hcarried := Stamp.nearest_eq ⟨2082844799, 0xffffffffffffffff⟩
  have hfirst := Stamp.nearest_eq ⟨Int64.minValue, 0⟩
  refine ⟨stamp_exact_and_nearest.1 _ (by decide), stamp_exact_and_nearest.2.1 _ _ (by decide) (by decide) ?_,
    stamp_exact_and_nearest.2.2.1 _ (by decide), ((stamp_exact_and_nearest.2.2.2 _).1 _).2 ⟨by decide, ?_⟩,
    (stamp_exact_and_nearest.2.2.2 ⟨Int64.minValue, 0⟩).2.2.1.2 ?_⟩
  · exact Prod.Lex.toLex_lt_toLex.2 (.inl (by decide))
  · rw [← Stamp.nearest, hcarried]
    decide
  · rw [← Stamp.nearest, hfirst]
    decide

end TagWire
