import Mathlib.Tactic.SplitIfs
import TagWire.Text.Utf8

/-!
# Text as bytes and back

The decoder reads the bytes of a text as that text, without any replacement character. From other bytes it makes no
more characters than there are bytes.
-/

namespace TagWire.Utf8

theorem toNat_ofNat_of_lt {n : Nat} (h : n < 256) : (UInt8.ofNat n).toNat = n := by
  simpa using Nat.mod_eq_of_lt h

theorem step_last {cs : List Char} {bits least most m : Nat} (h64 : m < 64) (hl : least ≤ 0x80 + m)
    (hm : 0x80 + m ≤ most) :
    Reading.step ⟨cs, some ⟨bits, 1, least, most⟩⟩ (UInt8.ofNat (0x80 + m)) =
      ⟨Char.ofNat (bits * 64 + m) :: cs, none⟩ := by
  simp only [Reading.step, toNat_ofNat_of_lt (show 0x80 + m < 256 by omega)]
  simp [hl, hm]

theorem step_more {cs : List Char} {bits missing least most m : Nat} (h64 : m < 64) (hl : least ≤ 0x80 + m)
    (hm : 0x80 + m ≤ most) :
    Reading.step ⟨cs, some ⟨bits, missing + 2, least, most⟩⟩ (UInt8.ofNat (0x80 + m)) =
      ⟨cs, some ⟨bits * 64 + m, missing + 1, 0x80, 0xBF⟩⟩ := by
  simp only [Reading.step, toNat_ofNat_of_lt (show 0x80 + m < 256 by omega)]
  simp [hl, hm]

theorem start_two {cs : List Char} {m : Nat} (h2 : 2 ≤ m) (h32 : m < 32) :
    Reading.step ⟨cs, none⟩ (UInt8.ofNat (0xC0 + m)) = ⟨cs, some ⟨m, 1, 0x80, 0xBF⟩⟩ := by
  simp only [Reading.step, Reading.start, toNat_ofNat_of_lt (show 0xC0 + m < 256 by omega)]
  rw [if_neg (by omega), if_pos (by simp; omega)]
  simp

theorem start_three {cs : List Char} {m : Nat} (h16 : m < 16) :
    Reading.step ⟨cs, none⟩ (UInt8.ofNat (0xE0 + m)) =
      ⟨cs, some ⟨m, 2, if m = 0 then 0xA0 else 0x80, if m = 13 then 0x9F else 0xBF⟩⟩ := by
  simp only [Reading.step, Reading.start, toNat_ofNat_of_lt (show 0xE0 + m < 256 by omega)]
  rw [if_neg (by omega), if_neg (by simp; omega), if_pos (by simp; omega)]
  have h13 : (0xE0 + m = 0xED) = (m = 13) := by simp; omega
  simp [h13]

theorem start_four {cs : List Char} {m : Nat} (h5 : m < 5) :
    Reading.step ⟨cs, none⟩ (UInt8.ofNat (0xF0 + m)) =
      ⟨cs, some ⟨m, 3, if m = 0 then 0x90 else 0x80, if m = 4 then 0x8F else 0xBF⟩⟩ := by
  simp only [Reading.step, Reading.start, toNat_ofNat_of_lt (show 0xF0 + m < 256 by omega)]
  rw [if_neg (by omega), if_neg (by simp; omega), if_neg (by simp; omega), if_pos (by simp; omega)]
  have h4 : (0xF0 + m = 0xF4) = (m = 4) := by simp; omega
  simp [h4]

theorem ofNat_eq_of_toNat_eq {c : Char} {n : Nat} (h : n = c.toNat) : Char.ofNat n = c := by
  rw [h, Char.ofNat_toNat]

/-- The bytes of a character are read as this character. -/
theorem foldl_encodeChar (cs : List Char) (c : Char) :
    (encodeChar c).foldl Reading.step ⟨cs, none⟩ = ⟨c :: cs, none⟩ := by
  have hv : c.toNat < 0xD800 ∨ 0xDFFF < c.toNat ∧ c.toNat < 0x110000 := c.valid
  unfold encodeChar
  generalize hn : c.toNat = n at hv
  by_cases h1 : n < 0x80
  · simp only [h1, ite_true, List.foldl_cons, List.foldl_nil, Reading.step, Reading.start,
      toNat_ofNat_of_lt (show n < 256 by omega), ofNat_eq_of_toNat_eq hn.symm]
  by_cases h2 : n < 0x800
  · simp only [h1, h2, ite_true, ite_false, List.foldl_cons, List.foldl_nil]
    rw [start_two (by omega) (by omega), step_last (by omega) (by omega) (by omega),
      ofNat_eq_of_toNat_eq (c := c) (by omega)]
  by_cases h3 : n < 0x10000
  · simp only [h1, h2, h3, ite_true, ite_false, List.foldl_cons, List.foldl_nil]
    rw [start_three (by omega), step_more (by omega) (by split <;> omega) (by split <;> omega),
      step_last (by omega) (by omega) (by omega),
      ofNat_eq_of_toNat_eq (c := c) (by omega)]
  · simp only [h1, h2, h3, ite_false, List.foldl_cons, List.foldl_nil]
    rw [start_four (by omega), step_more (by omega) (by split <;> omega) (by split <;> omega),
      step_more (by omega) (by omega) (by omega), step_last (by omega) (by omega) (by omega),
      ofNat_eq_of_toNat_eq (c := c) (by omega)]

theorem foldl_encode (s cs : List Char) :
    (s.flatMap encodeChar).foldl Reading.step ⟨cs, none⟩ = ⟨s.reverse ++ cs, none⟩ := by
  induction s generalizing cs with
  | nil => rfl
  | cons c s ih =>
    rw [List.flatMap_cons, List.foldl_append, foldl_encodeChar, ih]
    simp

/-- Text is read back from its bytes. -/
@[simp] theorem decodeLossy_encode (s : String) : decodeLossy (encode s) = s := by
  rw [decodeLossy, encode, foldl_encode]
  simp [Reading.finish]

/-! ## Lengths -/

theorem length_encodeChar_le (c : Char) : (encodeChar c).length ≤ 4 := by
  unfold encodeChar
  simp only []
  split_ifs <;> simp

theorem length_encode_le (s : String) : (encode s).length ≤ 4 * s.toList.length := by
  rw [encode]
  induction s.toList with
  | nil => simp
  | cons c cs ih =>
    have hc := length_encodeChar_le c
    rw [List.flatMap_cons, List.length_append, List.length_cons]
    omega

/-- The characters of a reading once it is finished. -/
def Reading.size (r : Reading) : Nat := r.chars.length + if r.inProgress.isSome then 1 else 0

theorem length_finish (r : Reading) : r.finish.length = r.size := by
  unfold Reading.finish Reading.size
  cases r.inProgress <;> simp

theorem size_start_le (cs : List Char) (b : UInt8) : (Reading.start cs b).size ≤ cs.length + 1 := by
  unfold Reading.start
  simp only []
  split_ifs <;> simp [Reading.size]

/-- Each byte adds at most one character. -/
theorem size_step_le (r : Reading) (b : UInt8) : (r.step b).size ≤ r.size + 1 := by
  obtain ⟨cs, p⟩ := r
  cases p with
  | none => exact size_start_le cs b
  | some p =>
    simp only [Reading.step]
    split_ifs
    · simp [Reading.size]
    · simp [Reading.size]
    · simpa [Reading.size] using size_start_le (replacement :: cs) b

theorem size_foldl_le (bs : List UInt8) : ∀ r : Reading, (bs.foldl Reading.step r).size ≤ r.size + bs.length := by
  induction bs with
  | nil => exact fun _ => Nat.le_refl _
  | cons b bs ih =>
    intro r
    have h₁ := ih (r.step b)
    have h₂ := size_step_le r b
    rw [List.foldl_cons, List.length_cons]
    omega

theorem length_decodeLossy_le (bs : List UInt8) : (decodeLossy bs).toList.length ≤ bs.length := by
  rw [decodeLossy, String.toList_ofList, length_finish]
  simpa [Reading.size] using size_foldl_le bs {}

end TagWire.Utf8
