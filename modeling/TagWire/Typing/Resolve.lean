import TagWire.Typing.Infer
import TagWire.Typing.Unify
import TagWire.Units

/-!
# Types of data under hints

The first hint that a value satisfies decides its type, and the value fills in what the hint leaves open: a
wildcard becomes the type of the data it stands for, a missing unit the unit of the data. A unit that is
asked for admits compatible units, and the type still has the unit of the data. The items of a list are
joined to one type.
-/

namespace TagWire

/-- An integer that fits a signed word. -/
def checkInt (n : Int) : Except FlattenError Int :=
  if -0x80000000 ≤ n ∧ n < 0x80000000 then .ok n else .error (.outOfRange n .int)

/-- An integer that fits an unsigned word. -/
def checkWord (n : Int) : Except FlattenError Int :=
  if 0 ≤ n ∧ n < 0x100000000 then .ok n else .error (.outOfRange n .word)

namespace UnitMark

/-- The unit of a plain number under a mark. A plain number is in no named unit. -/
def ofPlain : UnitMark → Except FlattenError UnitMark
  | unspecified | dimensionless => .ok dimensionless
  | named want => .error (.unitMismatch want "")

/-- The unit of data under a label and a mark, which is always the data's own. -/
def ofData (units : Units) (label : String) (mark : UnitMark) : Except FlattenError UnitMark :=
  if label = "" then mark.ofPlain
  else
    match mark with
    | unspecified => .ok (.ofLabel label)
    | named want => if units.compatible label want then .ok (.ofLabel label) else .error (.unitMismatch want label)
    | dimensionless => .error (.unitMismatch "" label)

end UnitMark

/-- Joins the types of list items one by one. The type so far is missing as long as there was no item. -/
def joinItems (fit : Data → Except FlattenError Ty) : Option Ty → List Data → Except FlattenError (Option Ty)
  | t, [] => .ok t
  | none, d :: ds => do
    let t ← fit d
    joinItems fit (some t) ds
  | some u, d :: ds => do
    let t ← fit d
    match u.unify t with
    | some v => joinItems fit (some v) ds
    | none => .error (.conflict u d)

namespace Hint

mutual

/-- The type of a value under one hint. It leaves open what neither value nor hint decides. -/
def fit (units : Units) : Hint → Data → Except FlattenError Ty
  | wildcard, d => d.infer.mapError .untyped
  | none, .none => .ok .none
  | bool, .bool _ => .ok .bool
  | int, d =>
    match d.integer? with
    | some n => (checkInt n).map fun _ => .int
    | Option.none => .error (.mismatch int d)
  | word, d =>
    match d.integer? with
    | some n => (checkWord n).map fun _ => .word
    | Option.none => .error (.mismatch word d)
  | str, .bytes _ | str, .text _ => .ok .str
  | time, .time _ => .ok .time
  | value u, .float _ | value u, .int _ | value u, .word _ => u.ofPlain.map .value
  | value u, .value _ label => (u.ofData units label).map .value
  | complex u, .complex _ | complex u, .float _ | complex u, .int _ | complex u, .word _ => u.ofPlain.map .complex
  | complex u, .complexValue _ label | complex u, .value _ label => (u.ofData units label).map .complex
  | cluster hs, .tuple ds =>
    if ds.length = hs.length then (fitAll units hs ds).map .cluster
    else .error (.arityMismatch (cluster hs) hs.length ds.length)
  | list elem depth, d =>
    match d.grid depth, elem with
    | .error e, _ => .error (.ofGrid depth d e)
    | .ok g, some h => (joinItems (h.fit units) Option.none g.leaves).map fun t => .list t depth
    | .ok g, Option.none =>
      if g.leaves.isEmpty then .ok (.list Option.none depth) else .error (.mismatch (list elem depth) d)
  | error (some h), .error _ _ (some p) => (h.fit units p).map fun t => .error (some t)
  | error _, .error _ _ Option.none => .ok (.error Option.none)
  | h, d => .error (.mismatch h d)

def fitAll (units : Units) : List Hint → List Data → Except FlattenError (List Ty)
  | h :: hs, d :: ds => do
    let t ← h.fit units d
    let ts ← fitAll units hs ds
    .ok (t :: ts)
  | _, _ => .ok []

end

/-- The type of a value under one hint, with the hint's own defaults for what is left open. -/
def accept (units : Units) (h : Hint) (d : Data) : Except FlattenError Ty := do
  let t ← h.fit units d
  if (t.fillFrom h).printsAmbiguously then .error (.untyped (.ambiguous d)) else .ok (t.fillFrom h)

end Hint

/-- The type of a value under the first hint that it satisfies, or its own type if there are no hints. The
error of a single hint is kept; the errors of several hints are not. -/
def resolve (units : Units) (d : Data) : List Hint → Except FlattenError Ty
  | [] => d.infer.mapError .untyped
  | [h] => h.accept units d
  | hs =>
    match hs.findSome? fun h => (h.accept units d).toOption with
    | some t => .ok t
    | none => .error (.noMatchingHint d hs)

end TagWire
