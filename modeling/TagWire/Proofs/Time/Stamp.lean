import TagWire.Time.Stamp

/-!
# Stamps read back

64 bits are wide enough for every second on the way from a stamp to an instant: what does not fit lies outside of the
calendar. The stamp of an instant holds the instant to the nanosecond. A leap second comes back as the last nanosecond
of the second before it.
-/

namespace TagWire

namespace Instant

/-- The seconds of Unix time that the calendar can represent. -/
def OnCalendar (seconds : Int) : Prop := -8334601228800 ≤ seconds ∧ seconds ≤ 8210266876799

instance (seconds : Int) : Decidable (OnCalendar seconds) := inferInstanceAs (Decidable (_ ∧ _))

theorem ofUnix?_eq_some {seconds : Int} {nanos : Nat} {t : Instant} (hn : nanos < 1000000000) :
    ofUnix? seconds nanos = some t ↔ t.seconds = seconds ∧ t.nanos = nanos := by
  constructor
  · intro h
    rw [ofUnix?] at h
    split at h <;> cases h
    exact ⟨rfl, rfl⟩
  · rintro ⟨rfl, rfl⟩
    exact ofUnix?_self hn

theorem ofUnix?_eq_none_of {seconds : Int} {nanos : Nat} (h : ¬ OnCalendar seconds) : ofUnix? seconds nanos = none := by
  rw [OnCalendar] at h
  rw [ofUnix?, dif_neg]
  omega

theorem ofUnix?_eq_none {seconds : Int} {nanos : Nat} (hn : nanos < 1000000000) :
    ofUnix? seconds nanos = none ↔ ¬ OnCalendar seconds := by
  simp only [ofUnix?, OnCalendar, dite_eq_right_iff, reduceCtorEq, imp_false]
  omega

/-- An instant with a leap second drawn into the second before it. -/
def withoutLeap (t : Instant) : Instant where
  seconds := t.seconds
  nanos := min t.nanos 999999999
  first_le := t.first_le
  le_last := t.le_last
  nanos_lt := by omega

@[simp] theorem withoutLeap_seconds (t : Instant) : t.withoutLeap.seconds = t.seconds := rfl

@[simp] theorem withoutLeap_nanos (t : Instant) : t.withoutLeap.nanos = min t.nanos 999999999 := rfl

theorem withoutLeap_nanos_lt (t : Instant) : t.withoutLeap.nanos < 1000000000 := by
  rw [withoutLeap_nanos]
  omega

theorem withoutLeap_of_lt {t : Instant} (h : t.nanos < 1000000000) : t.withoutLeap = t := by
  cases t
  simp only [withoutLeap, Instant.mk.injEq, true_and]
  exact Nat.min_eq_left (Nat.le_of_lt_succ h)

end Instant

namespace Stamp

/-! ## Seconds in 64 bits -/

theorem bind_fit64? {α : Type} {n : Int} {f : Int → Option α}
    (hf : ¬ (-0x8000000000000000 ≤ n ∧ n < 0x8000000000000000) → f n = none) :
    ((fit64? n).bind fun m => f m.toInt) = f n := by
  by_cases hn : -0x8000000000000000 ≤ n ∧ n < 0x8000000000000000
  · rw [fit64?, if_pos hn, Option.bind_some, Int64.toInt_ofInt_of_le hn.1 (by omega)]
  · rw [fit64?, if_neg hn, hf hn, Option.bind_none]

theorem nanos_le (s : Stamp) : s.nanos ≤ 1000000000 := by
  have h := s.fraction.toNat_lt
  rw [nanos]
  omega

/-- A second outside of 64 bits is outside of the calendar, and a carry does not bring it back. -/
theorem carried?_eq (s : Stamp) {carry : Int} (nanos : Nat) (h₀ : 0 ≤ carry) (h₁ : carry ≤ 1) :
    s.carried? carry nanos = Instant.ofUnix? (s.seconds.toInt - epochOffset + carry) nanos := by
  have hsum (n : Int) : ((fit64? (n + carry)).bind fun unix => Instant.ofUnix? unix.toInt nanos) =
      Instant.ofUnix? (n + carry) nanos :=
    bind_fit64? (f := (Instant.ofUnix? · nanos)) fun h =>
      Instant.ofUnix?_eq_none_of (by simp only [Instant.OnCalendar]; omega)
  have hfirst : ((fit64? (s.seconds.toInt - epochOffset)).bind fun seconds =>
      Instant.ofUnix? (seconds.toInt + carry) nanos) =
      Instant.ofUnix? (s.seconds.toInt - epochOffset + carry) nanos :=
    bind_fit64? (f := fun n => Instant.ofUnix? (n + carry) nanos) fun h =>
      Instant.ofUnix?_eq_none_of (by simp only [Instant.OnCalendar]; omega)
  simp only [carried?, bind, hsum, hfirst]

/-- `instant?` in exact numbers. -/
theorem instant?_eq (s : Stamp) : s.instant? =
    Instant.ofUnix? (s.seconds.toInt - epochOffset + s.nanos / 1000000000) (s.nanos % 1000000000) := by
  have hle := s.nanos_le
  rw [instant?]
  by_cases h : 1000000000 ≤ s.nanos
  · have hd : (s.nanos : Int) / 1000000000 = 1 := by omega
    have hm : s.nanos % 1000000000 = s.nanos - 1000000000 := by omega
    rw [if_pos h, carried?_eq s _ (by decide) (by decide), hd, hm]
  · have hd : (s.nanos : Int) / 1000000000 = 0 := by omega
    have hm : s.nanos % 1000000000 = s.nanos := by omega
    rw [if_neg h, carried?_eq s _ (by decide) (by decide), hd, hm]

theorem nanos_lt_of_instant? {s : Stamp} {t : Instant} (h : s.instant? = some t) : t.nanos < 1000000000 := by
  have hn : s.nanos % 1000000000 < 1000000000 := Nat.mod_lt s.nanos (by decide)
  rw [instant?_eq, Instant.ofUnix?_eq_some hn] at h
  rw [h.2]
  exact hn

/-! ## The stamps of instants -/

theorem toInt_seconds_ofInstant (t : Instant) : (ofInstant t).seconds.toInt = t.seconds + epochOffset := by
  have h₁ := t.first_le
  have h₂ := t.le_last
  rw [ofInstant, Int64.toInt_ofInt_of_le] <;> simp only [epochOffset] <;> omega

theorem toNat_fraction_ofInstant (t : Instant) :
    (ofInstant t).fraction.toNat = min t.nanos 999999999 * 0x10000000000000000 / 1000000000 := by
  rw [ofInstant, UInt64.toNat_ofNat']
  exact Nat.mod_eq_of_lt (by omega)

/-- Rounding down on the way out and to the nearest on the way in loses no nanosecond. -/
theorem nanos_ofInstant (t : Instant) : (ofInstant t).nanos = min t.nanos 999999999 := by
  rw [nanos, toNat_fraction_ofInstant]
  omega

theorem instant?_ofInstant (t : Instant) : (ofInstant t).instant? = some t.withoutLeap := by
  rw [instant?_eq, toInt_seconds_ofInstant, nanos_ofInstant]
  have hs : t.seconds + epochOffset - epochOffset + (min t.nanos 999999999 : Nat) / 1000000000 =
      t.withoutLeap.seconds := by
    simp only [Instant.withoutLeap_seconds]
    omega
  have hn : min t.nanos 999999999 % 1000000000 = t.withoutLeap.nanos := by
    simp only [Instant.withoutLeap_nanos]
    omega
  rw [hs, hn, Instant.ofUnix?_self t.withoutLeap_nanos_lt]

theorem ofInstant_withoutLeap (t : Instant) : ofInstant t.withoutLeap = ofInstant t := by
  simp only [ofInstant, Instant.withoutLeap_seconds, Instant.withoutLeap_nanos, Nat.min_assoc, Nat.min_self]

end Stamp

end TagWire
