import TagWire.Tag.Matching

/-!
# Text of tags

A tag is written without blanks, a cluster always in parentheses, and the number of dimensions of a list
only if it is more than one.
-/

namespace TagWire

/-- A unit in brackets, or nothing. -/
def UnitMark.chars (u : UnitMark) : List Char :=
  match u.label? with
  | some l => '[' :: l.toList ++ [']']
  | none => []

namespace Hint

/-- The number of dimensions as it is written. -/
def depthChars (depth : Nat) : List Char :=
  if 1 < depth then Nat.toDigits 10 depth else []

mutual

/-- The characters of a hint's tag. -/
def chars : Hint → List Char
  | none => ['_']
  | bool => ['b']
  | int => ['i']
  | word => ['w']
  | str => ['s']
  | time => ['t']
  | value u => 'v' :: u.chars
  | complex u => 'c' :: u.chars
  | cluster ms => '(' :: memberChars ms ++ [')']
  | list (some e) d => '*' :: depthChars d ++ e.chars
  | list .none d => '*' :: depthChars d ++ ['_']
  | error (some p) => 'E' :: p.chars
  | error .none => ['E']
  | wildcard => ['?']

def memberChars : List Hint → List Char
  | [] => []
  | m :: ms => m.chars ++ memberChars ms

end

def text (h : Hint) : String := String.ofList h.chars

end Hint

namespace Ty

def text (t : Ty) : String := (Hint.ofTy t).text

/-- The tag ends in an error without payload, which takes whatever element comes next as its payload. -/
def endsInBareError : Ty → Bool
  | error .none => true
  | error (some p) => p.endsInBareError
  | list (some e) _ => e.endsInBareError
  | _ => false

mutual

/-- The tag reads back as another type, because somewhere a cluster member other than the last ends in an
error without payload: `(Ei)` is read as a cluster of one error that carries an integer. -/
def printsAmbiguously : Ty → Bool
  | cluster ms => membersPrintAmbiguously ms
  | list (some e) _ => e.printsAmbiguously
  | error (some p) => p.printsAmbiguously
  | _ => false

def membersPrintAmbiguously : List Ty → Bool
  | [] => false
  | m :: ms => m.printsAmbiguously || (m.endsInBareError && !ms.isEmpty) || membersPrintAmbiguously ms

end

end Ty

end TagWire
