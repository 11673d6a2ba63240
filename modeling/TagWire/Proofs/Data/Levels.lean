import Mathlib.Tactic.Choose
import TagWire.Proofs.Data.Nest

/-!
# Levels of lists

Whether a value is a grid can be seen level by level: there are only lists at each level, and all of them have the same
length. Taking such a value apart and putting its leaves together again gives the value with plain lists, and putting
leaves together and taking them apart again gives the leaves.
-/

namespace TagWire.Data

/-! ## Values with a shape -/

/-- A list with a number of items. -/
def HasLength (n : Nat) (d : Data) : Prop := ∃ items, d.items? = some items ∧ items.length = n

theorem mem_leavesAt_succ {d x : Data} {k : Nat} {items : List Data} (h : d.items? = some items) :
    x ∈ leavesAt (k + 1) d ↔ ∃ y ∈ items, x ∈ leavesAt k y := by
  rw [leavesAt, h, Option.getD_some, List.mem_flatMap]

/-- A value has a shape if its lists at each level have the length there. -/
theorem hasShape_iff : ∀ {s : List Nat} {d : Data},
    HasShape s d ↔ ∀ i n, s[i]? = some n → ∀ x ∈ leavesAt i d, HasLength n x
  | [], d => by simp [HasShape]
  | m :: s, d => by
    constructor
    · rintro ⟨items, hi, hm, hs⟩ i n hn x hx
      cases i with
      | zero =>
        cases hn
        obtain rfl := List.mem_singleton.1 hx
        exact ⟨items, hi, hm⟩
      | succ i =>
        obtain ⟨y, hy, hxy⟩ := (mem_leavesAt_succ hi).1 hx
        exact hasShape_iff.1 (hs y hy) i n hn x hxy
    · intro h
      obtain ⟨items, hi, hm⟩ := h 0 m rfl d (List.mem_singleton_self d)
      refine ⟨items, hi, hm, fun y hy => hasShape_iff.2 fun i n hn x hx => ?_⟩
      exact h (i + 1) n hn x ((mem_leavesAt_succ hi).2 ⟨y, hy, hx⟩)

theorem HasShape.settle : ∀ {s : List Nat} {d : Data}, HasShape s d → HasShape (settle s) d
  | [], _, _ => trivial
  | n :: s, d, ⟨items, hi, hn, hs⟩ => by
    by_cases h : n = 0
    · have hnil : items = [] := List.length_eq_zero_iff.1 (hn.trans h)
      rw [h, settle_zero, List.replicate_succ]
      exact ⟨items, hi, hn.trans h, fun x hx => by simp [hnil] at hx⟩
    · rw [settle_pos h]
      exact ⟨items, hi, hn, fun x hx => (hs x hx).settle⟩

/-! ## Rectangular values -/

/-- At each of a number of levels there are only lists, and they all have the same length. -/
def Rectangular (depth : Nat) (d : Data) : Prop := ∀ i < depth, ∃ n, ∀ x ∈ leavesAt i d, HasLength n x

theorem rectangular_iff_exists_shape {depth : Nat} {d : Data} :
    Rectangular depth d ↔ ∃ s, s.length = depth ∧ HasShape s d := by
  constructor
  · intro h
    choose! length hl using h
    refine ⟨(List.range depth).map length, by rw [List.length_map, List.length_range], hasShape_iff.2 ?_⟩
    intro i n hn
    rw [List.getElem?_map, Option.map_eq_some_iff] at hn
    obtain ⟨j, hj, rfl⟩ := hn
    obtain ⟨hi, rfl⟩ := List.getElem?_eq_some_iff.1 hj
    rw [List.length_range] at hi
    rw [List.getElem_range]
    exact hl i hi
  · rintro ⟨s, rfl, hs⟩ i hi
    exact ⟨s[i], hasShape_iff.1 hs i s[i] (List.getElem?_eq_getElem hi)⟩

theorem exists_grid_iff {d : Data} {k : Nat} : (∃ g, d.grid (k + 1) = .ok g) ↔ Rectangular (k + 1) d := by
  rw [rectangular_iff_exists_shape]
  constructor
  · rintro ⟨g, hg⟩
    obtain ⟨hl, hd, -, -⟩ := grid_spec hg
    exact ⟨g.shape, hl, hd⟩
  · rintro ⟨s, hl, hs⟩
    exact ⟨_, grid_of_hasShape ((length_settle s).trans hl) hs.settle (settled_settle s)⟩

/-! ## Taking apart and putting together -/

/-- Values that are rectangular are taken apart to a shape and its leaves, and put together again from them. Leaves are
put together to nested lists of a shape, and taken apart again from these. -/
theorem grid_and_nest_inverse :
    (∀ (d : Data) (depth : Nat), 1 ≤ depth →
      ((∃ g, d.grid depth = .ok g) ↔ Rectangular depth d) ∧
      ∀ g, d.grid depth = .ok g → g.shape.length = depth ∧ Settled g.shape ∧ g.leaves.length = cells g.shape ∧
        nest g.shape g.leaves = mapLeaves id depth d) ∧
    (∀ (shape : List Nat) (leaves : List Data), shape ≠ [] → leaves.length = cells shape →
      (nest shape leaves).grid shape.length = .ok ⟨settle shape, leaves⟩) := by
  refine ⟨fun d depth h => ?_, fun shape leaves => grid_nest⟩
  obtain ⟨k, rfl⟩ := Nat.exists_eq_add_of_le' h
  refine ⟨exists_grid_iff, fun g hg => ?_⟩
  obtain ⟨hl, -, -, hs⟩ := grid_spec hg
  have hn := nest_leaves id hg
  rw [List.map_id] at hn
  exact ⟨hl, hs, length_leaves hg, hn⟩

/-- An array is a level of lists as well as a list is, and it becomes one. The lengths below an empty level are lost. -/
theorem grid_and_nest_inverse_array :
    let d : Data := .list [.list [.bool true], .array (.int32 [7])]
    let g : Grid := ⟨[2, 1], [.bool true, .int 7]⟩
    (1 ≤ 2 ∧ d.grid 2 = .ok g ∧ Rectangular 2 d ∧ Settled g.shape ∧ nest g.shape g.leaves = mapLeaves id 2 d) ∧
      ([2, 0, 3] ≠ [] ∧ ([] : List Data).length = cells [2, 0, 3] ∧ (nest [2, 0, 3] []).grid 3 = .ok ⟨[2, 0, 0], []⟩) := by
  intro d g
  have hg : d.grid 2 = .ok g := rfl
  obtain ⟨apart, together⟩ := grid_and_nest_inverse
  obtain ⟨hiff, hgrid⟩ := apart d 2 (by decide)
  obtain ⟨-, hs, -, hn⟩ := hgrid g hg
  exact ⟨⟨by decide, hg, hiff.1 ⟨g, hg⟩, hs, hn⟩, List.cons_ne_nil _ _, rfl, together [2, 0, 3] [] (List.cons_ne_nil _ _) rfl⟩

end TagWire.Data
