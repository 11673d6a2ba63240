import TagWire.Error

/-!
# Types of data on its own

Without any hint a value gets the type that its kind suggests. An empty list has unknown elements, and a
list whose first item is a list counts as a list of one more dimension.
-/

namespace TagWire

namespace Ty

/-- The type of a list whose items have a type. More than nine dimensions cannot be written in one tag. -/
def listAround : Ty → Ty
  | list elem depth => if depth < 9 then list elem (depth + 1) else listOf (list elem depth)
  | t => listOf t

end Ty

def NumArray.elemTy : NumArray → Ty
  | int32 _ => .int
  | word32 _ => .word
  | float64 _ => .value .dimensionless
  | complex128 _ => .complex .dimensionless

namespace Data

mutual

/-- The type of a value. Non-negative integers that need all 32 bits or more become words. -/
def infer : Data → Except InferError Ty
  | none => .ok .none
  | bool _ => .ok .bool
  | int n => .ok (if n.toInt < 0x80000000 then .int else .word)
  | word _ => .ok .word
  | bytes _ | text _ => .ok .str
  | time _ => .ok .time
  | float _ => .ok (.value .dimensionless)
  | value _ unit => .ok (.value (.ofLabel unit))
  | complex _ => .ok (.complex .dimensionless)
  | complexValue _ unit => .ok (.complex (.ofLabel unit))
  | tuple [] => .error .emptyTuple
  | tuple (d :: ds) => do
    let ts ← inferAll (d :: ds)
    if (Ty.cluster ts).printsAmbiguously then .error (.ambiguous (tuple (d :: ds))) else .ok (.cluster ts)
  | list [] => .ok (.list Option.none 1)
  | list (d :: _) => do
    let t ← d.infer
    .ok t.listAround
  | array a => .ok (.listOf a.elemTy)
  | valueArray _ unit => .ok (.listOf (.value (.ofLabel unit)))
  | error _ _ (some p) => do
    let t ← p.infer
    .ok (.error (some t))
  | error _ _ Option.none => .ok (.error Option.none)

def inferAll : List Data → Except InferError (List Ty)
  | [] => .ok []
  | d :: ds => do
    let t ← d.infer
    let ts ← inferAll ds
    .ok (t :: ts)

end

end Data

end TagWire
