import TagWire.Text.Quoted

/-!
# Errors in tags

A tag that cannot be read is reported together with the part of its body from the fault on.
-/

namespace TagWire

/-- What could have stood at a place where a tag goes wrong, apart from the beginning of an element. -/
structure Expected where
  endOfTag : Bool
  unit : Bool
  /-- The number of dimensions of a list. -/
  depth : Bool
  /-- The unknown element of a list. -/
  unknownElement : Bool
deriving DecidableEq, Repr

namespace Expected

/-- The names of what was expected, in the order of the grammar and without the last one, which is always
the error. -/
def names (e : Expected) : List String :=
  (if e.endOfTag then ["EOI"] else []) ++
    ["none", "boolean", "int", "word", "string", "time", "wildcard", "value", "complex"] ++
    (if e.unit then ["units"] else []) ++ ["cluster", "list"] ++
    (if e.depth then ["depth"] else []) ++ (if e.unknownElement then ["empty_elem"] else [])

def text (e : Expected) : String := ", ".intercalate (e.names ++ ["or error"])

end Expected

/-- Why a tag cannot be read. -/
inductive TagFault where
  /-- The first character of the tag begins no element. -/
  | noElement
  /-- The tag goes wrong further on. -/
  | unexpected (expected : Expected)
  /-- A list is given zero dimensions. -/
  | depthZero
  /-- A tag of data holds a wildcard. -/
  | wildcard
deriving DecidableEq, Repr

def TagFault.message : TagFault → String
  | noElement => "expected tag"
  | unexpected expected => "expected " ++ expected.text
  | depthZero => "list depth must be at least 1"
  | wildcard => "wildcard '?' is only allowed in type hints"

structure TagError where
  /-- The whole tag with its comment. -/
  tag : String
  /-- The part of the body that the fault is about. -/
  fragment : String
  fault : TagFault
deriving DecidableEq, Repr

def TagError.message (e : TagError) : String :=
  "invalid type tag " ++ Text.quote e.tag ++ " at " ++ Text.quote e.fragment ++ ": " ++ e.fault.message

end TagWire
