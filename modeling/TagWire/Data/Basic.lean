import TagWire.Number.Double
import TagWire.Text.Utf8
import TagWire.Time.Instant

/-!
# Data

The values that the wire carries. Units are labels without meaning. The empty label stands for a plain
number: `Data.ofValue`, `Data.ofComplex` and `Data.ofValues` leave it out.
-/

namespace TagWire

/-- A complex number of two doubles. -/
structure Complex where
  re : Double
  im : Double
deriving DecidableEq, Inhabited, Repr

/-- Equality of the two parts as numbers. -/
def Complex.equal (z w : Complex) : Bool := z.re.equal w.re && z.im.equal w.im

/-- A list of numbers of one kind. -/
inductive NumArray where
  | int32 (xs : List Int32)
  | word32 (xs : List UInt32)
  | float64 (xs : List Double)
  | complex128 (xs : List Complex)
deriving DecidableEq, Inhabited

/-- A value. -/
inductive Data where
  | none
  | bool (b : Bool)
  | int (n : Int64)
  | word (n : UInt64)
  | bytes (bs : List UInt8)
  | text (s : String)
  | time (t : Instant)
  | float (x : Double)
  | complex (z : Complex)
  | value (x : Double) (unit : String)
  | complexValue (z : Complex) (unit : String)
  /-- A fixed number of members of any kinds. -/
  | tuple (members : List Data)
  /-- Any number of items that are meant to have one type. -/
  | list (items : List Data)
  | array (a : NumArray)
  | valueArray (xs : List Double) (unit : String)
  | error (code : Int32) (message : String) (payload : Option Data)
deriving Inhabited

namespace NumArray

def length : NumArray → Nat
  | int32 xs => xs.length
  | word32 xs => xs.length
  | float64 xs => xs.length
  | complex128 xs => xs.length

def isEmpty (a : NumArray) : Bool := a.length = 0

def items : NumArray → List Data
  | int32 xs => xs.map fun n => .int n.toInt64
  | word32 xs => xs.map fun n => .word n.toUInt64
  | float64 xs => xs.map .float
  | complex128 xs => xs.map .complex

def get? (a : NumArray) (i : Nat) : Option Data := a.items[i]?

/-- Equality of all items as numbers. -/
def equal : NumArray → NumArray → Bool
  | int32 xs, int32 ys => xs = ys
  | word32 xs, word32 ys => xs = ys
  | float64 xs, float64 ys => xs.length = ys.length && (xs.zip ys).all fun p => p.1.equal p.2
  | complex128 xs, complex128 ys => xs.length = ys.length && (xs.zip ys).all fun p => p.1.equal p.2
  | _, _ => false

@[simp] theorem length_items (a : NumArray) : a.items.length = a.length := by
  cases a <;> simp [items, length]

end NumArray

namespace Data

/-! ## Numbers under a label -/

/-- A number under a label, which is a plain number if the label is empty. -/
def ofValue (x : Double) (label : String) : Data :=
  if label = "" then float x else value x label

/-- A complex number under a label, which is a plain one if the label is empty. -/
def ofComplex (z : Complex) (label : String) : Data :=
  if label = "" then complex z else complexValue z label

/-- Numbers under one label, which are plain numbers if the label is empty. -/
def ofValues (xs : List Double) (label : String) : Data :=
  if label = "" then array (.float64 xs) else valueArray xs label

/-! ## Views -/

/-- The integer of signed or unsigned integer data. -/
def integer? : Data → Option Int
  | int n => some n.toInt
  | word n => some n.toNat
  | _ => Option.none

/-- The items of data that is a list: of a list, a numeric array or a value array. -/
def items? : Data → Option (List Data)
  | list items => some items
  | array a => some a.items
  | valueArray xs unit => some (xs.map fun x => value x unit)
  | _ => Option.none

mutual

/-- Adds the number of nodes of a value to a count. Members of tuples and items of lists are nodes of their
own. -/
def countNodes (count : Nat) : Data → Nat
  | tuple ms => countAllNodes (count + 1) ms
  | list xs => countAllNodes (count + 1) xs
  | _ => count + 1

def countAllNodes (count : Nat) : List Data → Nat
  | [] => count
  | d :: ds => countAllNodes (d.countNodes count) ds

end

/-- The number of nodes of a value. -/
def nodeCount (d : Data) : Nat := d.countNodes 0

mutual

/-- Equality of values where doubles are compared as numbers. -/
def equal : Data → Data → Bool
  | none, none => true
  | bool a, bool b => a = b
  | int a, int b => a = b
  | word a, word b => a = b
  | bytes a, bytes b => a = b
  | text a, text b => a = b
  | time a, time b => a = b
  | float a, float b => a.equal b
  | complex a, complex b => a.equal b
  | value a u, value b v => a.equal b && u = v
  | complexValue a u, complexValue b v => a.equal b && u = v
  | tuple as, tuple bs => allEqual as bs
  | list as, list bs => allEqual as bs
  | array a, array b => a.equal b
  | valueArray as u, valueArray bs v => NumArray.equal (.float64 as) (.float64 bs) && u = v
  | error a m (some p), error b n (some q) => a = b && m = n && p.equal q
  | error a m .none, error b n .none => a = b && m = n
  | _, _ => false

def allEqual : List Data → List Data → Bool
  | [], [] => true
  | a :: as, b :: bs => a.equal b && allEqual as bs
  | _, _ => false

end

end Data

end TagWire
