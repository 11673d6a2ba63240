import TagWire.Error
import TagWire.Text.Utf8
import TagWire.Time.Stamp
import TagWire.Wire.Word

/-!
# Unflattening

A value is read from the front of a buffer as its type tells. Counts that a buffer declares are checked
against what it holds before anything is built. List cells that take up no bytes cannot be checked in this
way; there is a fixed number of them for one buffer.
-/

namespace TagWire

/-- What is left to read from. -/
structure Input where
  /-- The bytes that are not read yet. -/
  rest : List UInt8
  /-- How many list cells that take up no bytes may still come. -/
  freeCells : Nat
deriving Inhabited

/-- The number of list cells without bytes that one buffer may declare. -/
def maxFreeCells : Nat := 0x100000

/-- A reader gives what it has read and what is left. -/
abbrev Reader (α : Type) := Input → Except UnflattenError (α × Input)

/-- Whether a list has at least a number of items. No more items than those are looked at. -/
def hasAtLeast {α : Type} : Nat → List α → Bool
  | 0, _ => true
  | _ + 1, [] => false
  | n + 1, _ :: xs => hasAtLeast n xs

theorem hasAtLeast_iff {α : Type} {n : Nat} {xs : List α} : hasAtLeast n xs = true ↔ n ≤ xs.length := by
  induction n generalizing xs with
  | zero => simp [hasAtLeast]
  | succ n ih => cases xs <;> simp [hasAtLeast, ih]

/-! ## Scalars -/

/-- The next bytes, as many as are asked for. -/
def readBytes (what : Shortage) (n : Nat) : Reader (List UInt8) := fun s =>
  if hasAtLeast n s.rest then .ok (s.rest.take n, { s with rest := s.rest.drop n })
  else .error (.truncated what)

def readUnsigned (order : ByteOrder) (width : Nat) : Reader Nat := fun s => do
  let (bs, s) ← readBytes .word width s
  .ok (Word.unsigned order bs, s)

def readSigned (order : ByteOrder) (width : Nat) : Reader Int := fun s => do
  let (bs, s) ← readBytes .word width s
  .ok (Word.signed order bs, s)

def readByte : Reader UInt8 := fun s =>
  match s.rest with
  | b :: rest => .ok (b, { s with rest })
  | [] => .error (.truncated .word)

def readDouble (order : ByteOrder) : Reader Double := fun s => do
  let (n, s) ← readUnsigned order 8 s
  .ok (⟨.ofNat n⟩, s)

/-- A complex number: the real part and the imaginary part. -/
def readComplex (order : ByteOrder) : Reader Complex := fun s => do
  let (re, s) ← readDouble order s
  let (im, s) ← readDouble order s
  .ok (⟨re, im⟩, s)

/-- A string: its length and its bytes. -/
def readString (order : ByteOrder) : Reader (List UInt8) := fun s => do
  let (n, s) ← readUnsigned order 4 s
  readBytes (.text n) n s

/-- The instant of a stamp that is read. -/
def Stamp.read (s : Stamp) : Except UnflattenError Instant :=
  s.instant?.elim (.error (.invalidTime s.seconds s.fraction)) .ok

theorem Stamp.read_eq_ok {s : Stamp} {t : Instant} : s.read = .ok t ↔ s.instant? = some t := by
  rw [read]
  cases s.instant? <;> simp

def readInstant (order : ByteOrder) : Reader Instant := fun s => do
  let (seconds, s) ← readSigned order 8 s
  let (fraction, s) ← readUnsigned order 8 s
  let t ← Stamp.read ⟨.ofInt seconds, .ofNat fraction⟩
  .ok (t, s)

/-- A number of values, one after the other, given those before, latest first. -/
def readTimes {α : Type} (read : Reader α) : Nat → List α → Reader (List α)
  | 0, acc, s => .ok (acc.reverse, s)
  | n + 1, acc, s =>
    match read s with
    | .error e => .error e
    | .ok (a, s) => readTimes read n (a :: acc) s

/-! ## Lists -/

/-- The least number of bytes that a value of a type takes up. -/
def Ty.minSize : Ty → Nat
  | none => 0
  | bool => 1
  | int | word | str => 4
  | value _ => 8
  | time | complex _ => 16
  | cluster ts => minSizes ts
  | list _ depth => 4 * depth
  | error (some _) => 9
  | error Option.none => 8
where
  minSizes : List Ty → Nat
  | [] => 0
  | t :: ts => t.minSize + minSizes ts

def readShape (order : ByteOrder) : Nat → Reader (List Nat)
  | 0, s => .ok ([], s)
  | depth + 1, s => do
    let (n, s) ← readSigned order 4 s
    if n < 0 then .error (.negativeLength n)
    else
      let (shape, s) ← readShape order depth s
      .ok (n.toNat :: shape, s)

/-- The number of cells of a shape, if no product from the left on needs more than 64 bits. -/
def cells? (shape : List Nat) : Option Nat :=
  shape.foldlM (fun n length => if n * length < 0x10000000000000000 then some (n * length) else none) 1

/-- The number of cells of a shape. If they take up no bytes, they and the lists that would hold them are
taken off the free cells. -/
def enterShape (shape : List Nat) (free : Bool) : Reader Nat := fun s =>
  match cells? shape, cells? shape.dropLast with
  | some total, some rows =>
    if free || total = 0 then
      if max total rows ≤ s.freeCells then .ok (total, { s with freeCells := s.freeCells - max total rows })
      else .error (.tooLarge shape)
    else .ok (total, s)
  | _, _ => .error (.tooLarge shape)

/-- The reader of a list of one dimension that becomes an array, for the element types of arrays. -/
def readArray? (order : ByteOrder) (elem : Ty) (n : Nat) : Option (Reader Data) :=
  match elem with
  | .int => some fun s => do
    let (xs, s) ← readTimes (readSigned order 4) n [] s
    .ok (.array (.int32 (xs.map .ofInt)), s)
  | .word => some fun s => do
    let (xs, s) ← readTimes (readUnsigned order 4) n [] s
    .ok (.array (.word32 (xs.map .ofNat)), s)
  | .value u => some fun s => do
    let (xs, s) ← readTimes (readDouble order) n [] s
    .ok (.ofValues xs u.label, s)
  | .complex .unspecified | .complex .dimensionless => some fun s => do
    let (xs, s) ← readTimes (readComplex order) n [] s
    .ok (.array (.complex128 xs), s)
  | _ => none

/-- The number of elements of a list whose lengths are read, if the buffer is long enough for them. -/
def enterList (elem : Ty) (shape : List Nat) : Reader Nat := fun s => do
  let (total, s) ← enterShape shape (elem.minSize = 0) s
  if hasAtLeast (total * elem.minSize) s.rest then .ok (total, s) else .error (.truncated (.list shape elem))

/-- The elements of a list whose lengths are read. -/
def readItems (order : ByteOrder) (elem : Ty) (read : Reader Data) (shape : List Nat) : Reader Data := fun s => do
  let (total, s) ← enterList elem shape s
  match shape, readArray? order elem total with
  | [_], some readArray => readArray s
  | _, _ => do
    let (leaves, s) ← readTimes read total [] s
    .ok (.nest shape leaves, s)

/-- A list of unknown elements, which has none. -/
def readNoElements (shape : List Nat) : Reader Data := fun s => do
  let (total, s) ← enterShape shape true s
  if total = 0 then .ok (.nest shape [], s) else .error (.unknownElement total)

/-! ## Values -/

namespace Ty

mutual

/-- A value of a type. -/
def read (order : ByteOrder) : Ty → Reader Data
  | none, s => .ok (.none, s)
  | bool, s => do
    let (b, s) ← readByte s
    if b = 0 then .ok (.bool false, s) else if b = 1 then .ok (.bool true, s) else .error (.invalidBool b)
  | int, s => do
    let (n, s) ← readSigned order 4 s
    .ok (.int (.ofInt n), s)
  | word, s => do
    let (n, s) ← readUnsigned order 4 s
    .ok (.word (.ofNat n), s)
  | str, s => do
    let (bs, s) ← readString order s
    .ok (.bytes bs, s)
  | time, s => do
    let (t, s) ← readInstant order s
    .ok (.time t, s)
  | value u, s => do
    let (x, s) ← readDouble order s
    .ok (.ofValue x u.label, s)
  | complex u, s => do
    let (z, s) ← readComplex order s
    .ok (.ofComplex z u.label, s)
  | cluster ts, s => do
    let (ds, s) ← readMembers order ts s
    .ok (.tuple ds, s)
  | list (some e) depth, s => do
    let (shape, s) ← readShape order depth s
    readItems order e (e.read order) shape s
  | list Option.none depth, s => do
    let (shape, s) ← readShape order depth s
    readNoElements shape s
  | error payload, s => do
    let (code, s) ← readSigned order 4 s
    let (message, s) ← readString order s
    let (p, s) ← readPayload order payload s
    .ok (.error (.ofInt code) (Utf8.decodeLossy message) p, s)

def readMembers (order : ByteOrder) : List Ty → Reader (List Data)
  | [], s => .ok ([], s)
  | t :: ts, s => do
    let (d, s) ← t.read order s
    let (ds, s) ← readMembers order ts s
    .ok (d :: ds, s)

/-- The payload of an error. With a payload type, a byte tells whether there is one. -/
def readPayload (order : ByteOrder) : Option Ty → Reader (Option Data)
  | Option.none, s => .ok (Option.none, s)
  | some t, s => do
    let (flag, s) ← readByte s
    if flag = 0 then .ok (Option.none, s)
    else if flag = 1 then
      let (d, s) ← t.read order s
      .ok (some d, s)
    else .error (.invalidFlag flag)

end

end Ty

/-- The value of a type that a whole buffer holds. -/
def Ty.unflatten (order : ByteOrder) (t : Ty) (bytes : List UInt8) : Except UnflattenError Data := do
  let (d, s) ← t.read order ⟨bytes, maxFreeCells⟩
  match s.rest with
  | [] => .ok d
  | rest => .error (.trailingBytes rest.length t)

end TagWire
