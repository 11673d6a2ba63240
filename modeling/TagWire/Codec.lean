import TagWire.Typing.Specialize
import TagWire.Wire.Buffer
import TagWire.Wire.Decode
import TagWire.Wire.Encode

/-!
# The codec

A codec flattens values to bytes and unflattens bytes to values. Without any settings words have their most
significant byte first, and the standard units apply.
-/

namespace TagWire

/-- A byte order, and the units that hints are judged by. -/
structure Codec where
  order : ByteOrder := .big
  units : Units := .standard

namespace Codec

/-- The type that a value is flattened as: the first hint that it satisfies decides, or the value itself
without hints, and unknown elements are filled in. -/
def resolve (c : Codec) (d : Data) (hints : List Hint) : Except FlattenError Ty := do
  let t ← TagWire.resolve c.units d hints
  specialize d t

/-- What flattening a value under a type does. -/
def emission (c : Codec) (d : Data) (t : Ty) : Emission := t.emit c.order d

/-- Flattens a value as exactly the given type. -/
def flattenAs (c : Codec) (d : Data) (t : Ty) : Except FlattenError (List UInt8) := (c.emission d t).result

/-- Flattens a value as the type that hints give it, and tells the type. -/
def flatten (c : Codec) (d : Data) (hints : List Hint) : Except FlattenError (List UInt8 × Ty) := do
  let t ← c.resolve d hints
  let bytes ← c.flattenAs d t
  .ok (bytes, t)

/-- Flattens a value into a buffer. What was written before a failure stays in the buffer. -/
def flattenInto (c : Codec) (b : Buffer) (d : Data) (t : Ty) : Buffer × Except FlattenError Unit :=
  (b.accept (c.emission d t), ((c.emission d t).within b.room).outcome)

/-- The value that a whole buffer holds under a type. -/
def unflatten (c : Codec) (bytes : List UInt8) (t : Ty) : Except UnflattenError Data := t.unflatten c.order bytes

end Codec

end TagWire
