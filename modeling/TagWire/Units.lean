/-!
# Units of measurement

Values keep the unit label that they come with. The only question asked about units is whether a value under
one label may stand where another label is wanted, and a `Units` answers it.
-/

namespace TagWire

/-- A rule that says which unit labels may stand in for which. -/
structure Units where
  /-- `compatible held want`: a value in the unit `held` may stand where the unit `want` is asked for. -/
  compatible : String → String → Bool

namespace Units

/-- Every label stands for itself only. -/
def exact : Units := ⟨fun held want => held = want⟩

/-- A label is accepted where it is asked for itself. -/
def Reflexive (u : Units) : Prop := ∀ label, u.compatible label label = true

theorem exact_reflexive : exact.Reflexive := fun _ => by simp [exact]

end Units

/-- A unit that the table knows: its label, the dimension it measures, and whether decimal multiples of it
have labels of their own. -/
structure KnownUnit where
  label : String
  dimension : String
  scalable : Bool
deriving DecidableEq, Repr

/-- A table of units, which knows common units and whatever is registered with it. -/
structure UnitTable where
  /-- Registered labels with their dimensions, latest first. -/
  registered : List (String × String) := []

namespace UnitTable

/-- Units that every table knows. -/
def common : List KnownUnit :=
  [ ⟨"m", "length", true⟩, ⟨"in", "length", false⟩, ⟨"ft", "length", false⟩, ⟨"yd", "length", false⟩,
    ⟨"mi", "length", false⟩, ⟨"s", "time", true⟩, ⟨"min", "time", false⟩, ⟨"h", "time", false⟩,
    ⟨"d", "time", false⟩, ⟨"g", "mass", true⟩, ⟨"A", "current", true⟩, ⟨"K", "temperature", true⟩,
    ⟨"mol", "amount", true⟩, ⟨"cd", "luminous intensity", true⟩, ⟨"Hz", "frequency", true⟩,
    ⟨"N", "force", true⟩, ⟨"Pa", "pressure", true⟩, ⟨"bar", "pressure", true⟩, ⟨"J", "energy", true⟩,
    ⟨"eV", "energy", true⟩, ⟨"W", "power", true⟩, ⟨"C", "charge", true⟩, ⟨"V", "voltage", true⟩,
    ⟨"F", "capacitance", true⟩, ⟨"Ohm", "resistance", true⟩, ⟨"\u03a9", "resistance", true⟩,
    ⟨"S", "conductance", true⟩, ⟨"Wb", "magnetic flux", true⟩, ⟨"T", "flux density", true⟩,
    ⟨"G", "flux density", false⟩, ⟨"H", "inductance", true⟩, ⟨"rad", "angle", true⟩,
    ⟨"deg", "angle", false⟩, ⟨"L", "volume", true⟩, ⟨"dBm", "log power", false⟩, ⟨"dB", "ratio", false⟩ ]

/-- The signs of decimal multiples that may precede a scalable unit. -/
def multiples : List String :=
  ["da", "Y", "Z", "E", "P", "T", "G", "M", "k", "h", "d", "c", "m", "u", "\u00b5", "n", "p", "f", "a", "z", "y"]

/-- Registers a label, or gives it another dimension. -/
def register (t : UnitTable) (label dimension : String) : UnitTable :=
  ⟨(label, dimension) :: t.registered⟩

/-- What remains of a text behind a given beginning. -/
def remainder? (start text : List Char) : Option (List Char) :=
  if start.isPrefixOf text then some (text.drop start.length) else none

/-- The dimension of a scalable unit behind a sign of a multiple, for the first sign that leaves one. -/
def multipleDimension? (label : String) : Option String :=
  multiples.findSome? fun sign => do
    let rest ← remainder? sign.toList label.toList
    let unit ← common.find? fun u => u.scalable && u.label.toList = rest
    pure unit.dimension

/-- The dimension of a label: as registered, of a common unit, or of a multiple of one. -/
def dimension? (t : UnitTable) (label : String) : Option String :=
  t.registered.lookup label
    <|> (common.find? fun u => u.label = label).map (·.dimension)
    <|> multipleDimension? label

/-- Labels of one dimension stand in for each other; a label without a known dimension only for itself. -/
def units (t : UnitTable) : Units where
  compatible held want :=
    held = want ||
      match t.dimension? held, t.dimension? want with
      | some a, some b => a = b
      | _, _ => false

theorem units_reflexive (t : UnitTable) : t.units.Reflexive := fun _ => by simp [units]

end UnitTable

/-- The units that are asked where nothing else is said. -/
def Units.standard : Units := ({} : UnitTable).units

end TagWire
