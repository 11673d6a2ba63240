/-!
# UTF-8

Encoding of text, and a decoder that accepts every byte string: each longest run of bytes that begins a
character without completing one is read as the replacement character.
-/

namespace TagWire.Utf8

/-- The one to four bytes of a character. -/
def encodeChar (c : Char) : List UInt8 :=
  let n := c.toNat
  if n < 0x80 then [UInt8.ofNat n]
  else if n < 0x800 then [UInt8.ofNat (0xC0 + n / 64), UInt8.ofNat (0x80 + n % 64)]
  else if n < 0x10000 then
    [UInt8.ofNat (0xE0 + n / 4096), UInt8.ofNat (0x80 + n / 64 % 64), UInt8.ofNat (0x80 + n % 64)]
  else
    [UInt8.ofNat (0xF0 + n / 262144), UInt8.ofNat (0x80 + n / 4096 % 64),
      UInt8.ofNat (0x80 + n / 64 % 64), UInt8.ofNat (0x80 + n % 64)]

def encode (s : String) : List UInt8 :=
  s.toList.flatMap encodeChar

/-- A character whose first bytes have been read: their bits, how many bytes are missing, and the bounds of
the next one. -/
structure Partial where
  bits : Nat
  missing : Nat
  least : Nat := 0x80
  most : Nat := 0xBF

/-- What has been read: the finished characters, latest first, and the character in progress. -/
structure Reading where
  chars : List Char := []
  inProgress : Option Partial := none

/-- The character that stands for bytes that form none. -/
def replacement : Char := '\uFFFD'

/-- Reads a byte where a character begins. The bounds on the second byte exclude overlong forms, surrogates
and numbers past the last code point. -/
def Reading.start (chars : List Char) (byte : UInt8) : Reading :=
  let n := byte.toNat
  if n < 0x80 then ⟨Char.ofNat n :: chars, none⟩
  else if 0xC2 ≤ n && n ≤ 0xDF then ⟨chars, some ⟨n - 0xC0, 1, 0x80, 0xBF⟩⟩
  else if 0xE0 ≤ n && n ≤ 0xEF then
    ⟨chars, some ⟨n - 0xE0, 2, if n = 0xE0 then 0xA0 else 0x80, if n = 0xED then 0x9F else 0xBF⟩⟩
  else if 0xF0 ≤ n && n ≤ 0xF4 then
    ⟨chars, some ⟨n - 0xF0, 3, if n = 0xF0 then 0x90 else 0x80, if n = 0xF4 then 0x8F else 0xBF⟩⟩
  else ⟨replacement :: chars, none⟩

def Reading.step (r : Reading) (byte : UInt8) : Reading :=
  match r.inProgress with
  | none => .start r.chars byte
  | some p =>
    if p.least ≤ byte.toNat && byte.toNat ≤ p.most then
      let bits := p.bits * 64 + (byte.toNat - 0x80)
      if p.missing ≤ 1 then ⟨Char.ofNat bits :: r.chars, none⟩
      else ⟨r.chars, some ⟨bits, p.missing - 1, 0x80, 0xBF⟩⟩
    else .start (replacement :: r.chars) byte

/-- The characters read once no byte is left. -/
def Reading.finish (r : Reading) : List Char :=
  match r.inProgress with
  | none => r.chars.reverse
  | some _ => (replacement :: r.chars).reverse

/-- The text that bytes stand for, with a replacement character for whatever is not text. -/
def decodeLossy (bytes : List UInt8) : String :=
  String.ofList (bytes.foldl Reading.step {}).finish

end TagWire.Utf8
