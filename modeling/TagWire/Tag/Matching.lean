import TagWire.Tag.Basic

/-!
# Types and hints

Every type is a hint, every hint without a wildcard is a type, and a hint describes the types that match it.
-/

namespace TagWire

namespace Ty

def listOf (elem : Ty) : Ty := list (some elem) 1

mutual

/-- Nothing is left open: every list has an element type and every `v` and `c` a unit. -/
def isConcrete : Ty → Bool
  | value u | complex u => u ≠ .unspecified
  | cluster ms => areConcrete ms
  | list (some e) _ => e.isConcrete
  | list .none _ => false
  | error (some p) => p.isConcrete
  | _ => true

def areConcrete : List Ty → Bool
  | [] => true
  | m :: ms => m.isConcrete && areConcrete ms

end

end Ty

namespace Hint

mutual

def ofTy : Ty → Hint
  | .none => none
  | .bool => bool
  | .int => int
  | .word => word
  | .str => str
  | .time => time
  | .value u => value u
  | .complex u => complex u
  | .cluster ms => cluster (ofTys ms)
  | .list (some e) d => list (some (ofTy e)) d
  | .list .none d => list .none d
  | .error (some p) => error (some (ofTy p))
  | .error .none => error .none

def ofTys : List Ty → List Hint
  | [] => []
  | m :: ms => ofTy m :: ofTys ms

end

mutual

/-- A hint as a type, if it holds no wildcard. -/
def toTy? : Hint → Option Ty
  | none => some .none
  | bool => some .bool
  | int => some .int
  | word => some .word
  | str => some .str
  | time => some .time
  | value u => some (.value u)
  | complex u => some (.complex u)
  | cluster ms => (toTys? ms).map .cluster
  | list (some e) d => e.toTy?.map fun t => .list (some t) d
  | list .none d => some (.list .none d)
  | error (some p) => p.toTy?.map fun t => .error (some t)
  | error .none => some (.error .none)
  | wildcard => .none

def toTys? : List Hint → Option (List Ty)
  | [] => some []
  | m :: ms =>
    match m.toTy?, toTys? ms with
    | some t, some ts => some (t :: ts)
    | _, _ => .none

end

mutual

/-- The type a hint describes where there is no data to look at: a missing unit is none, a list of something
with a wildcard is a list of unknown elements, and any other wildcard leaves no type at all. -/
def withoutData? : Hint → Option Ty
  | none => some .none
  | bool => some .bool
  | int => some .int
  | word => some .word
  | str => some .str
  | time => some .time
  | value .unspecified => some (.value .dimensionless)
  | value u => some (.value u)
  | complex .unspecified => some (.complex .dimensionless)
  | complex u => some (.complex u)
  | cluster ms => (withoutDatas? ms).map .cluster
  | list (some e) d => some (.list e.withoutData? d)
  | list .none d => some (.list .none d)
  | error (some p) => p.withoutData?.map fun t => .error (some t)
  | error .none => some (.error .none)
  | wildcard => .none

def withoutDatas? : List Hint → Option (List Ty)
  | [] => some []
  | m :: ms =>
    match m.withoutData?, withoutDatas? ms with
    | some t, some ts => some (t :: ts)
    | _, _ => .none

end

/-- A mark in a hint covers itself, and covers everything if it is not specified. -/
def covers (hint mark : UnitMark) : Bool := hint = .unspecified || hint = mark

mutual

/-- Whether a type is an instance of a hint: a wildcard stands for any type and a missing unit for any unit. -/
def admits : Hint → Ty → Bool
  | wildcard, _ => true
  | none, .none | bool, .bool | int, .int | word, .word | str, .str | time, .time => true
  | value h, .value t | complex h, .complex t => covers h t
  | cluster hs, .cluster ts => admitsAll hs ts
  | list (some h) d, .list (some t) e => d = e && h.admits t
  | list .none d, .list .none e => d = e
  | error (some h), .error (some t) => h.admits t
  | error .none, .error .none => true
  | _, _ => false

def admitsAll : List Hint → List Ty → Bool
  | [], [] => true
  | h :: hs, t :: ts => h.admits t && admitsAll hs ts
  | _, _ => false

end

end Hint

end TagWire
