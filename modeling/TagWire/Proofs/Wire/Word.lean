import Mathlib
import TagWire.Wire.Word

/-!
# Words read back

The bytes of an integer that fits into a word hold that integer, for both orders of bytes, and all bytes are
those of the integer that they hold.
-/

namespace TagWire.Word

theorem ofDigits_lt (ds : List UInt8) : ofDigits ds < 256 ^ ds.length := by
  induction ds with
  | nil => simp [ofDigits]
  | cons d ds ih =>
    have hd := d.toNat_lt
    simp only [ofDigits, List.length_cons, Nat.pow_succ]
    omega

theorem ofDigits_digits (width n : Nat) : ofDigits (digits width n) = n % 256 ^ width := by
  induction width generalizing n with
  | zero => simp [digits, ofDigits, Nat.mod_one]
  | succ width ih =>
    have hd : (UInt8.ofNat (n % 256)).toNat = n % 256 := by simp
    rw [digits, ofDigits, ih, hd, Nat.pow_succ, Nat.mul_comm (256 ^ width), Nat.mod_mul]

theorem size_pos (width : Nat) : (0 : Int) < (256 ^ width : Nat) :=
  Int.natCast_pos.2 (Nat.pow_pos (by decide))

theorem unsigned_encode_emod (order : ByteOrder) (width : Nat) (n : Int) :
    unsigned order (encode order width n) = (n % (256 ^ width : Nat)).toNat := by
  have hlt : (n % (256 ^ width : Nat)).toNat < 256 ^ width := by
    have h := Int.emod_lt_of_pos n (size_pos width)
    have h0 := Int.emod_nonneg n (Int.ne_of_gt (size_pos width))
    omega
  cases order <;>
    simp only [unsigned, encode, Nat.pow_eq, List.reverse_reverse, ofDigits_digits] <;>
    exact Nat.mod_eq_of_lt hlt

theorem unsigned_encode (order : ByteOrder) {width n : Nat} (h : n < 256 ^ width) :
    unsigned order (encode order width n) = n := by
  rw [unsigned_encode_emod, ← Int.natCast_emod, Nat.mod_eq_of_lt h, Int.toNat_natCast]

theorem signed_encode (order : ByteOrder) {width : Nat} {n : Int} (hl : -(256 ^ width : Nat) ≤ n * 2)
    (hu : n * 2 < (256 ^ width : Nat)) : signed order (encode order width n) = n := by
  have h0 := Int.emod_nonneg n (Int.ne_of_gt (size_pos width))
  rw [signed, length_encode, unsigned_encode_emod, Int.toNat_of_nonneg h0, Nat.pow_eq, Int.emod_bmod,
    Int.bmod_eq_of_le_mul_two hl hu]

/-! ## Bytes read and written -/

theorem unsigned_lt (order : ByteOrder) (bs : List UInt8) : unsigned order bs < 256 ^ bs.length := by
  cases order with
  | big => simpa [unsigned] using ofDigits_lt bs.reverse
  | little => exact ofDigits_lt bs

/-- Two integers have the same bytes if they differ by a multiple of the size of the word. -/
theorem encode_congr (order : ByteOrder) {width : Nat} {m n : Int}
    (h : m % (256 ^ width : Nat) = n % (256 ^ width : Nat)) : encode order width m = encode order width n := by
  simp only [encode, Nat.pow_eq, h]

theorem encode_unsigned (order : ByteOrder) (bs : List UInt8) :
    encode order bs.length (unsigned order bs : Nat) = bs := by
  have hlt : unsigned order bs % 256 ^ bs.length = unsigned order bs := Nat.mod_eq_of_lt (unsigned_lt order bs)
  simp only [encode, Nat.pow_eq, ← Int.natCast_emod, hlt, Int.toNat_natCast]
  cases order with
  | big =>
    have hd := digits_ofDigits bs.reverse
    rw [List.length_reverse] at hd
    simp only [unsigned, hd, List.reverse_reverse]
  | little => exact digits_ofDigits bs

theorem encode_signed (order : ByteOrder) (bs : List UInt8) : encode order bs.length (signed order bs) = bs := by
  refine (encode_congr order ?_).trans (encode_unsigned order bs)
  rw [signed, Nat.pow_eq, Int.bmod_emod]

theorem signed_bounds (order : ByteOrder) (bs : List UInt8) :
    -(256 ^ bs.length : Nat) ≤ signed order bs * 2 ∧ signed order bs * 2 < (256 ^ bs.length : Nat) := by
  have hpos := size_pos bs.length
  have hl := Int.le_bmod (x := unsigned order bs) (m := 256 ^ bs.length) (by omega)
  have hu := Int.bmod_lt (x := unsigned order bs) (m := 256 ^ bs.length) (by omega)
  rw [signed, Nat.pow_eq]
  omega

end TagWire.Word
