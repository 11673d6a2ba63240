import TagWire.Data.Basic

/-!
# Grids

Nested lists as a grid: the length in each dimension, and the leaves in the order in which they come.
`Data.grid` takes lists apart and `Data.nest` puts them together.
-/

namespace TagWire

/-- A grid of data. -/
structure Grid where
  /-- The lengths, outermost first. -/
  shape : List Nat := []
  leaves : List Data := []
deriving Inhabited

/-- Why data is no grid. Levels are counted from 0 at the outermost list. -/
inductive GridError where
  /-- Something at a level where a list is needed is none. -/
  | notAList (level : Nat)
  /-- Two lists of a level differ in length. -/
  | ragged (level first other : Nat)
deriving DecidableEq, Repr

namespace Grid

/-- Meets a list at a level. The first one there fixes the length. -/
def meet (g : Grid) (level length : Nat) : Except GridError Grid :=
  match g.shape[level]? with
  | none => .ok { g with shape := g.shape ++ [length] }
  | some first => if first = length then .ok g else .error (.ragged level first length)

/-- Adds the items of a list of the last level. -/
def addLeaves (g : Grid) (items : List Data) : Grid := { g with leaves := g.leaves ++ items }

/-- Gives the grid exactly `depth` dimensions. Levels that no list was met at have length 0. -/
def resize (g : Grid) (depth : Nat) : Grid :=
  { g with shape := (g.shape ++ List.replicate depth 0).take depth }

end Grid

namespace Data

mutual

/-- Walks through the lists of a value, from a level on down to the last one before `depth`. -/
def walk (depth level : Nat) (g : Grid) : Data → Except GridError Grid
  | list items =>
    match g.meet level items.length with
    | .error e => .error e
    | .ok g => if level + 1 = depth then .ok (g.addLeaves items) else walkAll depth (level + 1) g items
  | d =>
    match d.items? with
    | Option.none => .error (.notAList level)
    | some items =>
      match g.meet level items.length with
      | .error e => .error e
      | .ok g =>
        if level + 1 = depth then .ok (g.addLeaves items)
        else if items.isEmpty then .ok g
        -- the items of an array are numbers
        else .error (.notAList (level + 1))

def walkAll (depth level : Nat) (g : Grid) : List Data → Except GridError Grid
  | [] => .ok g
  | d :: ds =>
    match d.walk depth level g with
    | .error e => .error e
    | .ok g => walkAll depth level g ds

end

/-- A list of `depth` dimensions as a grid. -/
def grid (d : Data) (depth : Nat) : Except GridError Grid :=
  (d.walk depth 0 {}).map (·.resize depth)

/-! ## Putting lists together -/

/-- The number of cells of a shape. -/
def cells (shape : List Nat) : Nat := shape.foldl (· * ·) 1

/-- Cuts a list into `count` pieces of a length, given the pieces before, latest first. -/
def splitInto {α : Type} (length : Nat) : Nat → List α → List (List α) → List (List α)
  | 0, _, pieces => pieces.reverse
  | count + 1, xs, pieces => splitInto length count (xs.drop length) (xs.take length :: pieces)

/-- Nested lists of a shape from their leaves. -/
def nest : List Nat → List Data → Data
  | count :: length :: shape, leaves =>
    list ((splitInto (cells (length :: shape)) count leaves []).map (nest (length :: shape)))
  | _, leaves => list leaves

end Data

end TagWire
