/-!
# Words on the wire

A word is a fixed number of bytes that hold an integer, most or least significant byte first. Signed words
are in two's complement.
-/

namespace TagWire

/-- The order of the bytes of a word. -/
inductive ByteOrder where
  | big
  | little
deriving DecidableEq, Inhabited, Repr

namespace Word

/-- The `width` lowest base-256 digits of a number, least significant first. -/
def digits : Nat → Nat → List UInt8
  | 0, _ => []
  | width + 1, n => UInt8.ofNat (n % 256) :: digits width (n / 256)

/-- The number with the given base-256 digits, least significant first. -/
def ofDigits : List UInt8 → Nat
  | [] => 0
  | d :: ds => d.toNat + 256 * ofDigits ds

/-- The bytes of an integer, reduced to the word's width. -/
def encode (order : ByteOrder) (width : Nat) (n : Int) : List UInt8 :=
  let ds := digits width (n % Nat.pow 256 width).toNat
  match order with
  | .big => ds.reverse
  | .little => ds

/-- The number that bytes hold without a sign. -/
def unsigned (order : ByteOrder) (bytes : List UInt8) : Nat :=
  match order with
  | .big => ofDigits bytes.reverse
  | .little => ofDigits bytes

/-- The integer that bytes hold in two's complement. -/
def signed (order : ByteOrder) (bytes : List UInt8) : Int :=
  Int.bmod (unsigned order bytes) (Nat.pow 256 bytes.length)

@[simp] theorem length_digits (width n : Nat) : (digits width n).length = width := by
  induction width generalizing n with
  | zero => rfl
  | succ width ih => simp [digits, ih]

/-- Bytes are the digits of the number that they hold. -/
theorem digits_ofDigits (ds : List UInt8) : digits ds.length (ofDigits ds) = ds := by
  induction ds with
  | nil => rfl
  | cons d ds ih =>
    have hd := d.toNat_lt
    have hm : (d.toNat + 256 * ofDigits ds) % 256 = d.toNat := by omega
    have hq : (d.toNat + 256 * ofDigits ds) / 256 = ofDigits ds := by omega
    simp only [List.length_cons, digits, ofDigits, hm, hq, ih, UInt8.ofNat_toNat]

@[simp] theorem length_encode (order : ByteOrder) (width : Nat) (n : Int) :
    (encode order width n).length = width := by
  cases order <;> simp [encode]

end Word

end TagWire
