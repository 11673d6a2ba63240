import Mathlib.Algebra.Ring.Nat
import TagWire.Proofs.Data.Nest

/-!
# The cells of lists

The cells of a value are the items of all its lists, as far as they are not lists with items again. Lists of a
shape have their leaves as cells, and empty lists where a level is empty.
-/

namespace TagWire.Data

/-- Whether a value is a list with items. -/
def isFilled : Data → Bool
  | list (_ :: _) => true
  | _ => false

mutual

/-- The items of the lists of a value, through tuples, lists and payloads, that are no lists with items. -/
def cellCount : Data → Nat
  | tuple ms => memberCells ms
  | list xs => itemCells xs
  | error _ _ (some p) => p.cellCount
  | _ => 0

def memberCells : List Data → Nat
  | [] => 0
  | d :: ds => d.cellCount + memberCells ds

def itemCells : List Data → Nat
  | [] => 0
  | d :: ds => (if d.isFilled then 0 else 1) + d.cellCount + itemCells ds

end

/-- The empty lists that lists of a shape have as items. -/
def emptyRows : List Nat → Nat
  | n :: m :: s => n * if m = 0 then 1 else emptyRows (m :: s)
  | _ => 0

/-! ## Counting -/

theorem itemCells_append (xs ys : List Data) : itemCells (xs ++ ys) = itemCells xs + itemCells ys := by
  induction xs with
  | nil => simp [itemCells]
  | cons x xs ih => rw [List.cons_append, itemCells, itemCells, ih, Nat.add_assoc _ (itemCells xs)]

theorem itemCells_le (xs : List Data) : itemCells xs ≤ xs.length + (xs.map cellCount).sum := by
  induction xs with
  | nil => simp [itemCells]
  | cons x xs ih =>
    rw [itemCells, List.length_cons, List.map_cons, List.sum_cons]
    split <;> omega

theorem isFilled_list {xs : List Data} : (list xs).isFilled = decide (xs.length ≠ 0) := by
  cases xs <;> rfl

theorem isFilled_nest {n : Nat} {s : List Nat} {xs : List Data} (h : xs.length = cells (n :: s)) :
    (nest (n :: s) xs).isFilled = decide (n ≠ 0) := by
  cases s with
  | nil =>
    have hl : xs.length = n := by simpa using h
    rw [nest, isFilled_list, hl]
    simp
  | cons m s =>
    obtain ⟨pieces, rfl, _, _, hn⟩ := exists_nest h
    rw [hn, isFilled_list, List.length_map]

theorem emptyRows_zero (s : List Nat) : emptyRows (0 :: s) = 0 := by
  cases s with
  | nil => rfl
  | cons m s => rw [emptyRows, Nat.zero_mul]

theorem itemCells_nests {n : Nat} {s : List Nat} {pieces : List (List Data)}
    (ih : ∀ {p : List Data}, p.length = cells (n :: s) → (nest (n :: s) p).cellCount = emptyRows (n :: s) + itemCells p)
    (hk : ∀ p ∈ pieces, p.length = cells (n :: s)) :
    itemCells (pieces.map (nest (n :: s))) =
      (pieces.length * if n = 0 then 1 else emptyRows (n :: s)) + itemCells pieces.flatten := by
  induction pieces with
  | nil => simp [itemCells]
  | cons p pieces ihp =>
    obtain ⟨hp, hps⟩ := List.forall_mem_cons.1 hk
    rw [List.map_cons, itemCells, ihp hps, isFilled_nest hp, ih hp, List.length_cons, List.flatten_cons,
      itemCells_append, Nat.succ_mul]
    by_cases h : n = 0
    · subst h
      simp only [ne_eq, not_true_eq_false, decide_false, Bool.false_eq_true, if_false, if_true, emptyRows_zero]
      omega
    · simp only [ne_eq, h, not_false_eq_true, decide_true, if_true, if_false]
      omega

/-- Lists of a shape have the cells of their leaves, and their empty rows. -/
theorem cellCount_nest : ∀ {s : List Nat} {xs : List Data}, s ≠ [] → xs.length = cells s →
    (nest s xs).cellCount = emptyRows s + itemCells xs
  | [], _, h, _ => absurd rfl h
  | [n], xs, _, _ => by
    rw [nest, cellCount, emptyRows, Nat.zero_add] <;> simp
  | n :: m :: s, xs, _, hx => by
    obtain ⟨pieces, rfl, hk, rfl, hn⟩ := exists_nest hx
    rw [hn, cellCount, emptyRows, itemCells_nests (cellCount_nest (by simp)) hk]

/-! ## Empty rows -/

theorem emptyRows_of_pos : ∀ {s : List Nat}, 0 ∉ s → emptyRows s = 0
  | [], _ => rfl
  | [_], _ => rfl
  | n :: m :: s, h => by
    obtain ⟨_, hs⟩ := not_or.1 (mt List.mem_cons.2 h)
    have hm : m ≠ 0 := fun h0 => hs (by simp [h0])
    rw [emptyRows, if_neg hm, emptyRows_of_pos hs, Nat.mul_zero]

/-- Where only the last level is empty, the empty rows are all rows. -/
theorem emptyRows_concat_zero_le : ∀ {s : List Nat}, 0 ∉ s → emptyRows (s ++ [0]) ≤ cells s
  | [], _ => Nat.zero_le _
  | [n], _ => by simp [emptyRows]
  | n :: m :: s, h => by
    obtain ⟨_, hs⟩ := not_or.1 (mt List.mem_cons.2 h)
    have hm : m ≠ 0 := fun h0 => hs (by simp [h0])
    rw [List.cons_append, List.cons_append, emptyRows, if_neg hm, ← List.cons_append, cells_cons]
    exact Nat.mul_le_mul_left n (emptyRows_concat_zero_le hs)

@[simp] theorem emptyRows_settle : ∀ s : List Nat, emptyRows (settle s) = emptyRows s
  | [] => rfl
  | [n] => by rw [settle_singleton]
  | n :: m :: s => by
    by_cases h : n = 0
    · rw [h, settle_zero, List.replicate_succ, emptyRows_zero, emptyRows_zero]
    · obtain ⟨s', hs⟩ := exists_settle_cons m s
      rw [settle_pos h, hs, emptyRows, emptyRows, ← hs, emptyRows_settle (m :: s)]

end TagWire.Data
