import TagWire.Wire.Emission

/-!
# Bounded buffers

A buffer takes bytes until it is full. A write that does not fit fills what room is left and fails.
-/

namespace TagWire

/-- A buffer of a fixed capacity. -/
structure Buffer where
  capacity : Nat
  written : List UInt8 := []
  written_le : written.length ≤ capacity := by decide

namespace Buffer

def empty (capacity : Nat) : Buffer := ⟨capacity, [], Nat.zero_le _⟩

def room (b : Buffer) : Nat := b.capacity - b.written.length

end Buffer

namespace Emission

/-- Steps up to the first write for which there is no room; that write is cut short. -/
def cutSteps : Nat → List Step → Option FlattenError → Emission
  | _, [], failure => ⟨[], failure⟩
  | room, s :: ss, failure =>
    if s.bytes.length ≤ room then
      let rest := cutSteps (room - s.bytes.length) ss failure
      ⟨s :: rest.steps, rest.failure⟩
    else ⟨[.write (s.bytes.take room)], some .bufferFull⟩

/-- An emission as far as there is room for it. -/
def within (room : Nat) (e : Emission) : Emission := cutSteps room e.steps e.failure

theorem length_bytes_cutSteps (room : Nat) (ss : List Step) (failure : Option FlattenError) :
    (cutSteps room ss failure).bytes.length ≤ room := by
  induction ss generalizing room with
  | nil => simp [cutSteps, bytes]
  | cons s ss ih =>
    unfold cutSteps
    split
    · rename_i h
      have := ih (room - s.bytes.length)
      simp only [bytes, List.flatMap_cons, List.length_append] at this ⊢
      omega
    · simp only [bytes, List.flatMap_cons, List.flatMap_nil, Step.bytes, List.append_nil, List.length_take]
      omega

end Emission

namespace Buffer

/-- Adds what an emission writes, as far as there is room for it. -/
def accept (b : Buffer) (e : Emission) : Buffer :=
  ⟨b.capacity, b.written ++ (e.within b.room).bytes, by
    have := Emission.length_bytes_cutSteps b.room e.steps e.failure
    have := b.written_le
    simp only [Emission.within, List.length_append, room] at *
    omega⟩

end Buffer

end TagWire
