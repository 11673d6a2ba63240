import Mathlib.Order.Bounds.Defs
import TagWire.Proofs.Wire.Denotation

/-!
# The least size of a type

`Ty.minSize` is what the decoder counts on before it reads the elements of a list. No value takes up fewer bytes, read or
written, and for each type there is a value that takes up no more.
-/

namespace TagWire

/-! ## Small values -/

/-- A list without items has no shape but zeros. -/
theorem Data.grid_noItems : ∀ depth : Nat, (list []).grid depth = .ok ⟨List.replicate depth 0, []⟩
  | 0 | 1 => rfl
  | depth + 2 => by
    have hw : (list []).walk (depth + 2) 0 {} = .ok ⟨[0], []⟩ := by
      simp [walk, walkAll, Grid.meet]
    have hs : (List.replicate (depth + 3) 0).take (depth + 2) = List.replicate (depth + 2) 0 := by
      rw [List.take_replicate, Nat.min_eq_left (Nat.le_succ _)]
    rw [grid, hw]
    exact congrArg (fun s => Except.ok (Grid.mk s [])) hs

theorem Data.zeros_lt {depth n : Nat} (h : n ∈ List.replicate depth 0) : n < 0x80000000 := by
  rw [List.eq_of_mem_replicate h]
  decide

namespace Ty

variable {order : ByteOrder}

mutual

/-- A value of a type with as few bytes as there can be: the strings and lists are empty, and no error has a payload. -/
def leastValue : Ty → Data
  | none => .none
  | bool => .bool false
  | int => .int 0
  | word => .word 0
  | str => .bytes []
  | time => .time .epoch
  | value u => .ofValue .zero u.label
  | complex u => .ofComplex ⟨.zero, .zero⟩ u.label
  | cluster ts => .tuple (leastValues ts)
  | list _ _ => .list []
  | error _ => .error 0 "" Option.none

def leastValues : List Ty → List Data
  | [] => []
  | t :: ts => t.leastValue :: leastValues ts

end

theorem length_leastValues (ts : List Ty) : (leastValues ts).length = ts.length := by
  induction ts with
  | nil => rfl
  | cons t ts ih => rw [leastValues, List.length_cons, ih, List.length_cons]

theorem length_errorBytes_empty : (errorBytes order 0 "").length = 8 := by
  rw [errorBytes, stringBytes, List.length_append, List.length_append, Word.length_encode, Word.length_encode]
  rfl

mutual

theorem emit_leastValue : (t : Ty) → ∃ bs, (t.emit order t.leastValue).result = .ok bs ∧ bs.length = t.minSize
  | none => ⟨_, emit_none.2 ⟨rfl, rfl⟩, rfl⟩
  | bool => ⟨_, emit_bool.2 ⟨false, rfl, rfl⟩, rfl⟩
  | int => ⟨_, emit_int.2 ⟨0, rfl, by decide, rfl⟩, Word.length_encode ..⟩
  | word => ⟨_, emit_word.2 ⟨0, rfl, by decide, rfl⟩, Word.length_encode ..⟩
  | str => ⟨_, emit_str.2 ⟨[], rfl, by decide, rfl⟩, by simp [stringBytes, minSize]⟩
  | time => ⟨_, emit_time.2 ⟨.epoch, rfl, rfl⟩, by simp [stampBytes, minSize]⟩
  | value u => ⟨_, emit_value.2 ⟨.zero, real?_ofValue .., rfl⟩, by simp [minSize]⟩
  | complex u => ⟨_, emit_complex.2 ⟨_, complex?_ofComplex .., rfl⟩, by simp [minSize]⟩
  | cluster ts => by
    obtain ⟨bs, hbs, hl⟩ := emitMembers_leastValues ts
    exact ⟨bs, emit_cluster.2 ⟨_, rfl, length_leastValues ts, hbs⟩, hl⟩
  | list (some e) depth => by
    refine ⟨_, emit_list.2 ⟨_, [], Data.grid_noItems depth, fun _ => Data.zeros_lt, .nil, rfl⟩, ?_⟩
    rw [List.length_append, length_shapeBytes, List.length_replicate]
    rfl
  | list .none depth => by
    refine ⟨_, emit_emptyList.2 ⟨_, Data.grid_noItems depth, fun _ => Data.zeros_lt, rfl, rfl⟩, ?_⟩
    rw [length_shapeBytes, List.length_replicate]
    rfl
  | error (some p) => by
    refine ⟨_, emit_error.2 ⟨0, "", .none, [0], rfl, by decide, rfl, rfl⟩, ?_⟩
    rw [List.length_append, length_errorBytes_empty]
    rfl
  | error .none => ⟨_, emit_bareError.2 ⟨0, "", rfl, by decide, rfl⟩, length_errorBytes_empty⟩

theorem emitMembers_leastValues : (ts : List Ty) →
    ∃ bs, (emitMembers order ts (leastValues ts)).result = .ok bs ∧ bs.length = minSize.minSizes ts
  | [] => ⟨[], emitMembers_nil.2 rfl, rfl⟩
  | t :: ts => by
    obtain ⟨xs, hx, hxl⟩ := emit_leastValue t
    obtain ⟨ys, hy, hyl⟩ := emitMembers_leastValues ts
    exact ⟨xs ++ ys, emitMembers_cons.2 ⟨xs, ys, hx, hy, rfl⟩, by rw [List.length_append, hxl, hyl, minSize.minSizes]⟩

end

theorem minSize_le_of_read {t : Ty} {s s' : Input} {d : Data} (h : t.read order s = .ok (d, s')) :
    ∃ taken, s.rest = taken ++ s'.rest ∧ t.minSize ≤ taken.length := by
  obtain ⟨bs, n, hd, ht⟩ := denotes_of_read t h
  exact ⟨bs, ht.rest, minSize_le_of_denotes t hd⟩

end Ty

namespace Codec

/-- The least size of a type is the least number of bytes that a value is written to under it, and reading a value of the
type takes at least as many. -/
theorem minSize_isLeast (c : Codec) (t : Ty) :
    IsLeast {n | ∃ d bytes, c.flattenAs d t = .ok bytes ∧ bytes.length = n} t.minSize ∧
    ∀ s d s', t.read c.order s = .ok (d, s') → ∃ taken, s.rest = taken ++ s'.rest ∧ t.minSize ≤ taken.length := by
  refine ⟨⟨?_, ?_⟩, fun s d s' h => Ty.minSize_le_of_read h⟩
  · obtain ⟨bytes, hb, hl⟩ := Ty.emit_leastValue t
    exact ⟨t.leastValue, bytes, hb, hl⟩
  · rintro n ⟨d, bytes, hb, rfl⟩
    exact Ty.minSize_le t hb

/-- An empty string, an empty table and an error without its payload take up 21 bytes. A string with a byte in it takes up
more, and is read from an input that goes on behind the value. -/
theorem minSize_isLeast_table :
    let t : Ty := .cluster [.str, .list (some .int) 2, .error (some .time)]
    let d : Data := .tuple [.bytes [7], .list [], .error 3 "" none]
    let bytes : List UInt8 := [0, 0, 0, 1, 7, 0, 0, 0, 0, 0, 0, 0, 0, 0, 0, 0, 3, 0, 0, 0, 0, 0]
    let after : Input := ⟨[9], 4⟩
    (t.minSize = 21 ∧ ∃ d bytes, ({} : Codec).flattenAs d t = .ok bytes ∧ bytes.length = 21) ∧
      (({} : Codec).flattenAs d t = .ok bytes ∧ t.minSize ≤ bytes.length) ∧
      (t.read .big ⟨bytes ++ [9], 4⟩ = .ok (d, after) ∧
        ∃ taken, bytes ++ [9] = taken ++ after.rest ∧ t.minSize ≤ taken.length) := by
  intro t d bytes after
  obtain ⟨⟨hm, hle⟩, hr⟩ := minSize_isLeast {} t
  have hf : ({} : Codec).flattenAs d t = .ok bytes := rfl
  have ht : t.Dimensioned := by simp [t, Ty.Dimensioned, Ty.AllDimensioned]
  have hlists : t.lists d = [(some .int, [0, 0])] := rfl
  have hfit : Ty.Fit (t.lists d) := by
    rw [hlists]
    intro l hl i
    obtain rfl := List.mem_singleton.1 hl
    rcases i with _ | _ | _ | i <;> simp
  have hd : t.read .big ⟨bytes ++ [9], 4⟩ = .ok (d, after) := (Ty.reads_norm t ht hf hfit [9]).ok (by decide)
  exact ⟨⟨rfl, hm⟩, ⟨hf, hle ⟨d, bytes, hf, rfl⟩⟩, hd, hr _ d after hd⟩

end Codec

end TagWire
