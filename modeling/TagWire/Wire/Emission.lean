import TagWire.Error

/-!
# Emissions

What flattening a value does, in order: it looks at a value under a type, and it writes a few bytes at a
time. It ends well or with an error, and what was written before an error stays written.
-/

namespace TagWire

/-- One step of flattening. -/
inductive Step where
  /-- A value is looked at under a type. -/
  | visit (found : Data) (ty : Ty)
  /-- Bytes are written, all at once. -/
  | write (bytes : List UInt8)
deriving Inhabited

def Step.bytes : Step → List UInt8
  | visit _ _ => []
  | write bs => bs

/-- Steps, and the error that they end with if there is one. -/
structure Emission where
  steps : List Step := []
  failure : Option FlattenError := none
deriving Inhabited

namespace Emission

def done : Emission := {}

def fail (e : FlattenError) : Emission := ⟨[], some e⟩

def write (bytes : List UInt8) : Emission := ⟨[.write bytes], none⟩

/-- One emission and then another, unless the first one fails. -/
def andThen (a b : Emission) : Emission :=
  match a.failure with
  | none => ⟨a.steps ++ b.steps, b.failure⟩
  | some _ => a

def sequence (es : List Emission) : Emission := es.foldr andThen done

/-- All bytes written, before a failure too. -/
def bytes (e : Emission) : List UInt8 := e.steps.flatMap Step.bytes

/-- How the emission ends. -/
def outcome (e : Emission) : Except FlattenError Unit :=
  match e.failure with
  | none => .ok ()
  | some cause => .error cause

/-- All bytes, if there is no failure. -/
def result (e : Emission) : Except FlattenError (List UInt8) := e.outcome.map fun _ => e.bytes

/-! ## What is written, and how it ends -/

@[simp] theorem bytes_done : done.bytes = [] := rfl

@[simp] theorem bytes_fail (e : FlattenError) : (fail e).bytes = [] := rfl

@[simp] theorem bytes_write (bs : List UInt8) : (write bs).bytes = bs := by
  simp [write, bytes, Step.bytes]

@[simp] theorem failure_done : done.failure = none := rfl

@[simp] theorem failure_fail (e : FlattenError) : (fail e).failure = some e := rfl

@[simp] theorem failure_write (bs : List UInt8) : (write bs).failure = none := rfl

theorem bytes_andThen_of_none {a b : Emission} (h : a.failure = none) :
    (a.andThen b).bytes = a.bytes ++ b.bytes := by
  simp [andThen, h, bytes]

theorem failure_andThen (a b : Emission) : (a.andThen b).failure = (a.failure <|> b.failure) := by
  cases h : a.failure <;> simp [andThen, h]

/-- A result is there exactly if nothing failed, and then it is all that was written. -/
theorem result_eq_ok_iff {e : Emission} {bs : List UInt8} :
    e.result = .ok bs ↔ e.failure = none ∧ e.bytes = bs := by
  cases h : e.failure <;> simp [result, outcome, h, Except.map]

end Emission

end TagWire
