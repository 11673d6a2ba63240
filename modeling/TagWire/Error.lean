import TagWire.Data.Describe
import TagWire.Data.Grid
import TagWire.Tag.Printer

/-!
# Errors of flattening and unflattening

Each error is a cause and holds the values it is about. The wording is in one `message` function for each
type of error.
-/

namespace TagWire

/-- Why a value has no type of its own. -/
inductive InferError where
  | emptyTuple
  /-- The tag of the type would read back as another type. -/
  | ambiguous (found : Data)
deriving Inhabited

def InferError.message : InferError → String
  | emptyTuple => "cannot infer a type for an empty tuple"
  | ambiguous found =>
    "cannot infer a type for " ++ found.describe ++
      " (an error without payload cannot precede another cluster member)"

/-- Why a value cannot be flattened. -/
inductive FlattenError where
  | untyped (cause : InferError)
  /-- The value is of another kind than the type. -/
  | mismatch (expected : Hint) (found : Data)
  /-- An integer does not fit into its word. -/
  | outOfRange (value : Int) (target : Ty)
  | unitMismatch (expected found : String)
  /-- A tuple and its cluster differ in length. -/
  | arityMismatch (expected : Hint) (arity found : Nat)
  | notAList (depth : Nat) (found : Data)
  /-- Two lists of one dimension differ in length. -/
  | ragged (depth level first other : Nat)
  /-- A list item does not fit the type of the items before it. -/
  | conflict (unified : Ty) (found : Data)
  /-- The type leaves open what the data has. -/
  | unresolved (ty : Ty)
  | noMatchingHint (found : Data) (hints : List Hint)
  | bufferFull
deriving Inhabited

namespace FlattenError

/-- A value that is no grid of a list's dimensions. -/
def ofGrid (depth : Nat) (found : Data) : GridError → FlattenError
  | .notAList _ => notAList depth found
  | .ragged level first other => ragged depth level first other

def message : FlattenError → String
  | untyped cause => cause.message
  | mismatch expected found => "cannot flatten " ++ found.describe ++ " as '" ++ expected.text ++ "'"
  | outOfRange value target => "integer " ++ toString value ++ " out of range for '" ++ target.text ++ "'"
  | unitMismatch expected found =>
    "unit mismatch: '" ++ found ++ "' cannot be flattened as '" ++ expected ++ "'"
  | arityMismatch expected arity found =>
    "cluster '" ++ expected.text ++ "' has " ++ toString arity ++ " members, tuple has " ++ toString found
  | notAList depth found => found.describe ++ " is not a list of depth " ++ toString depth
  | ragged depth level first other =>
    "ragged data for list of depth " ++ toString depth ++ ": dimension " ++ toString level ++
      " has lengths " ++ toString first ++ " and " ++ toString other
  | conflict unified found => "list elements disagree: '" ++ unified.text ++ "' vs " ++ found.describe
  | unresolved ty => "type '" ++ ty.text ++ "' is not resolved enough to flatten data"
  | noMatchingHint found hints =>
    found.describe ++ " matches none of the type hints [" ++
      ", ".intercalate (hints.map fun h => "'" ++ h.text ++ "'") ++ "]"
  | bufferFull => "write failed: failed to write whole buffer"

end FlattenError

/-- What a buffer is too short for. -/
inductive Shortage where
  /-- The word that comes next. -/
  | word
  /-- The text of a length that is given. -/
  | text (length : Nat)
  /-- The elements of a list whose lengths are given. -/
  | list (shape : List Nat) (elem : Ty)
deriving Inhabited

/-- Why a buffer cannot be unflattened. -/
inductive UnflattenError where
  | truncated (what : Shortage)
  | invalidBool (byte : UInt8)
  /-- The byte that tells whether an error has a payload is neither 0 nor 1. -/
  | invalidFlag (byte : UInt8)
  | negativeLength (length : Int)
  | tooLarge (shape : List Nat)
  /-- A list that has elements does not say what they are. -/
  | unknownElement (count : Nat)
  | invalidTime (seconds : Int64) (fraction : UInt64)
  | trailingBytes (count : Nat) (ty : Ty)
deriving Inhabited

/-- The lengths of a grid in brackets. -/
def shapeText (shape : List Nat) : String :=
  "[" ++ ", ".intercalate (shape.map toString) ++ "]"

def byteText (byte : UInt8) : String :=
  String.ofList ['0', 'x', Nat.digitChar (byte.toNat / 16), Nat.digitChar (byte.toNat % 16)]

def Shortage.message : Shortage → String
  | word => "failed to fill whole buffer"
  | text length => "buffer too short for string of length " ++ toString length
  | list shape elem => "buffer too short for list of shape " ++ shapeText shape ++ " of '" ++ elem.text ++ "'"

def UnflattenError.message : UnflattenError → String
  | truncated what => "truncated buffer: " ++ what.message
  | invalidBool byte => "invalid bool byte " ++ byteText byte
  | invalidFlag byte => "invalid present flag " ++ byteText byte ++ " for error payload"
  | negativeLength length => "negative list length " ++ toString length
  | tooLarge shape => "list of shape " ++ shapeText shape ++ " is too large"
  | unknownElement count => "list of unknown element type has " ++ toString count ++ " elements"
  | invalidTime seconds fraction =>
    "timestamp out of range: " ++ toString seconds.toInt ++ "s + " ++ toString fraction.toNat ++ "/2^64"
  | trailingBytes count ty => toString count ++ " trailing bytes after value of type '" ++ ty.text ++ "'"

end TagWire
