import TagWire.Proofs.Wire.Denotation

/-!
# Products of lengths

Before a list is read, `cells?` multiplies its lengths from the outermost on, in 64 bits. `Data.nest` multiplies the lengths
below each level that it reaches. Those products fit 64 bits too, except below an empty level: the first product stays at
the zero there, and the other one leaves the zero out. An empty level has no items, so that this product makes no difference
to the lists.
-/

namespace TagWire

/-! ## Products in 64 bits -/

section

variable {s : List Nat}

theorem isSome_cells?_iff : (cells? s).isSome ↔ ∀ i, Data.cells (s.take i) < 0x10000000000000000 := by
  constructor
  · intro h
    obtain ⟨n, hn⟩ := Option.isSome_iff_exists.1 h
    exact (of_cells?_eq_some hn).2
  · intro h
    rw [cells?_eq_some h]
    rfl

theorem cells?_eq_cells (h : (cells? s).isSome) : cells? s = some (Data.cells s) :=
  cells?_eq_some (isSome_cells?_iff.1 h)

theorem cells_lt (h : (cells? s).isSome) : Data.cells s < 0x10000000000000000 := by
  have hs := isSome_cells?_iff.1 h s.length
  rwa [List.take_length] at hs

theorem isSome_cells?_tail {n : Nat} (hn : n ≠ 0) (h : (cells? (n :: s)).isSome) : (cells? s).isSome := by
  refine isSome_cells?_iff.2 fun i => ?_
  have hi := isSome_cells?_iff.1 h (i + 1)
  rw [List.take_succ_cons, Data.cells_cons] at hi
  exact Nat.lt_of_le_of_lt (Nat.le_mul_of_pos_left _ (Nat.pos_of_ne_zero hn)) hi

theorem isSome_cells?_of_length_le (hs : ∀ n ∈ s, n < 0x80000000) (hl : s.length ≤ 2) : (cells? s).isSome := by
  match s with
  | [] => rfl
  | [n] =>
    have hn := hs n (by simp)
    simp [cells?, show n < 0x10000000000000000 by omega]
  | [n, m] =>
    have hn := hs n (by simp)
    have hm := hs m (by simp)
    have hp : n * m < 0x80000000 * 0x80000000 := Nat.mul_lt_mul'' hn hm
    simp [cells?, show n < 0x10000000000000000 by omega, show n * m < 0x10000000000000000 by omega]

end

namespace Data

/-! ## Levels -/

/-- A level of lists: how many items its lists have, and the lengths below it. -/
structure Level where
  count : Nat
  below : List Nat
deriving DecidableEq

/-- The levels that `nest` divides leaves at, from the outermost on. Nothing is below an empty level. -/
def levels : List Nat → List Level
  | n :: m :: s => ⟨n, m :: s⟩ :: if n = 0 then [] else levels (m :: s)
  | _ => []

/-- The lengths below the outermost empty level. -/
def belowEmpty : List Nat → List Nat
  | [] => []
  | n :: s => if n = 0 then s else belowEmpty s

/-- The lists that `nest` gives, with lengths multiplied in another way. There are none if a product is missing. -/
def nestWith (product : List Nat → Option Nat) : List Nat → List Data → Option Data
  | n :: m :: s, leaves =>
    match product (m :: s) with
    | Option.none => Option.none
    | some length => ((splitInto length n leaves []).mapM (nestWith product (m :: s))).map list
  | _, leaves => some (list leaves)

theorem forall_levels_cons {P : Level → Prop} {n m : Nat} {s : List Nat} :
    (∀ l ∈ levels (n :: m :: s), P l) ↔ P ⟨n, m :: s⟩ ∧ (n ≠ 0 → ∀ l ∈ levels (m :: s), P l) := by
  rw [levels, List.forall_mem_cons]
  by_cases h : n = 0 <;> simp [h]

theorem mem_of_mem_belowEmpty {k : Nat} : ∀ {s : List Nat}, k ∈ belowEmpty s → k ∈ s
  | n :: s, h => by
    rw [belowEmpty] at h
    split at h
    · exact List.mem_cons_of_mem _ h
    · exact List.mem_cons_of_mem _ (mem_of_mem_belowEmpty h)

theorem length_belowEmpty_le : ∀ s : List Nat, (belowEmpty s).length ≤ s.length - 1
  | [] => Nat.le_refl _
  | n :: s => by
    rw [belowEmpty, List.length_cons, Nat.add_sub_cancel]
    split
    · exact Nat.le_refl _
    · exact (length_belowEmpty_le s).trans (Nat.sub_le _ _)

theorem isSome_cells?_below : ∀ {s : List Nat}, (cells? s).isSome → ∀ l ∈ levels s, l.count ≠ 0 → (cells? l.below).isSome
  | [], _ | [_], _ => fun _ hl => by cases hl
  | n :: m :: s, h => forall_levels_cons.2
    ⟨fun hn => isSome_cells?_tail hn h, fun hn => isSome_cells?_below (isSome_cells?_tail hn h)⟩

/-- The only lengths whose product may be too large are those below the outermost empty level. -/
theorem forall_levels_iff {P : List Nat → Prop} (hP : ∀ s, (cells? s).isSome → P s) :
    ∀ {s : List Nat}, (cells? s).isSome → ((∀ l ∈ levels s, P l.below) ↔ P (belowEmpty s))
  | [], h => by simp [levels, belowEmpty, hP _ h]
  | [n], _ => by simp [levels, belowEmpty, hP [] rfl]
  | n :: m :: s, h => by
    rw [forall_levels_cons, belowEmpty]
    by_cases hn : n = 0
    · simp [hn]
    · have ht := isSome_cells?_tail hn h
      have ih := forall_levels_iff hP ht
      simp [hn, ih, hP _ ht]

/-! ## Lists from other products -/

section

variable {product : List Nat → Option Nat}

theorem mapM_eq_map {α β : Type} {f : α → Option β} {g : α → β} {xs : List α} (h : ∀ x ∈ xs, f x = some (g x)) :
    xs.mapM f = some (xs.map g) := by
  induction xs with
  | nil => rfl
  | cons x xs ih =>
    obtain ⟨hx, hxs⟩ := List.forall_mem_cons.1 h
    rw [List.mapM_cons, hx, ih hxs]
    rfl

/-- A product that is right below all levels with items is as good as the right one. -/
theorem nestWith_eq_some : ∀ {s : List Nat} {leaves : List Data},
    (∀ l ∈ levels s, ∃ k, product l.below = some k ∧ (l.count ≠ 0 → k = cells l.below)) →
      nestWith product s leaves = some (nest s leaves)
  | [], _, _ | [_], _, _ => rfl
  | n :: m :: s, leaves, h => by
    obtain ⟨⟨k, hk, hn⟩, hs⟩ := forall_levels_cons.1 h
    rw [nestWith, hk, nest]
    by_cases h0 : n = 0
    · rw [h0]
      rfl
    · rw [← hn h0]
      simp only [mapM_eq_map fun p _ => nestWith_eq_some (hs h0), Option.map_some]

theorem length_splitInto {α : Type} {k : Nat} : ∀ {n : Nat} {xs : List α} {acc : List (List α)},
    (splitInto k n xs acc).length = acc.length + n
  | 0, _, acc => by rw [splitInto, List.length_reverse, Nat.add_zero]
  | n + 1, _, acc => by rw [splitInto, length_splitInto, List.length_cons, Nat.add_right_comm, Nat.add_assoc]

theorem isSome_of_nestWith : ∀ {s : List Nat} {leaves : List Data} {d : Data}, nestWith product s leaves = some d →
    ∀ l ∈ levels s, (product l.below).isSome
  | [], _, _, _ | [_], _, _, _ => fun _ hl => by cases hl
  | n :: m :: s, leaves, d, h => by
    rw [nestWith] at h
    split at h
    · cases h
    · rename_i k hk
      refine forall_levels_cons.2 ⟨by rw [hk]; rfl, fun hn => ?_⟩
      -- a level with items has a first piece, and this piece shows all levels below
      obtain ⟨ds, hds, -⟩ := Option.map_eq_some_iff.1 h
      have hl : (splitInto k n leaves []).length = n := length_splitInto.trans (Nat.zero_add n)
      cases hp : splitInto k n leaves [] with
      | nil =>
        rw [hp] at hl
        exact absurd hl.symm hn
      | cons p ps =>
        rw [hp, List.mapM_cons] at hds
        obtain ⟨x, hx, -⟩ := Option.bind_eq_some_iff.1 hds
        exact isSome_of_nestWith hx

end

/-! ## The products of a shape -/

/-- Where the cells of a shape are counted without overflow, the products that `nest` takes fit exactly if those of the
lengths below the outermost empty level do; in three dimensions they always do. With checked products there are lists under
the same condition, and with products that wrap around there are always the same lists. -/
theorem products_fit_iff {shape : List Nat} (hn : ∀ n ∈ shape, n < 0x80000000) (h : (cells? shape).isSome) :
    ((∀ l ∈ levels shape, cells l.below < 0x10000000000000000) ↔ cells (belowEmpty shape) < 0x10000000000000000) ∧
    (shape.length ≤ 3 → ∀ l ∈ levels shape, cells l.below < 0x10000000000000000) ∧
    ∀ leaves, (nestWith cells? shape leaves = some (nest shape leaves) ↔ (cells? (belowEmpty shape)).isSome) ∧
      nestWith (fun s => some (cells s % 0x10000000000000000)) shape leaves = some (nest shape leaves) := by
  have hfit := forall_levels_iff (fun _ => cells_lt) h
  have hsome := forall_levels_iff (fun _ hs => hs) h
  refine ⟨hfit, fun hl => hfit.2 (cells_lt ?_), fun leaves => ⟨⟨fun he => ?_, fun hb => ?_⟩, ?_⟩⟩
  · refine isSome_cells?_of_length_le (fun n hm => hn n (mem_of_mem_belowEmpty hm)) ?_
    exact (length_belowEmpty_le shape).trans (Nat.sub_le_of_le_add hl)
  · exact hsome.1 (isSome_of_nestWith he)
  · exact nestWith_eq_some fun l hl => ⟨cells l.below, cells?_eq_cells (hsome.2 hb l hl), fun _ => rfl⟩
  · refine nestWith_eq_some fun l hl => ⟨_, rfl, fun hc => Nat.mod_eq_of_lt (cells_lt ?_)⟩
    exact isSome_cells?_below h l hl hc

/-- A buffer of sixteen bytes declares no lists, and three more lengths of lists that are not there. The decoder accepts it,
and the product of the three lengths is too large. -/
theorem products_fit_iff_empty :
    let shape : List Nat := [0, 0x7fffffff, 0x7fffffff, 0x7fffffff]
    let bytes : List UInt8 := [0, 0, 0, 0, 127, 255, 255, 255, 127, 255, 255, 255, 127, 255, 255, 255]
    ({} : Codec).unflatten bytes (.list (some .int) 4) = .ok (.list []) ∧
      (∀ n ∈ shape, n < 0x80000000) ∧ (cells? shape).isSome ∧
      (¬ ∀ l ∈ levels shape, cells l.below < 0x10000000000000000) ∧ nestWith cells? shape [] ≠ some (nest shape []) ∧
      nestWith (fun s => some (cells s % 0x10000000000000000)) shape [] = some (nest shape []) := by
  intro shape bytes
  have hn : ∀ n ∈ shape, n < 0x80000000 := by simp [shape]
  have hi : ∀ i, cells (shape.take i) < 0x10000000000000000 := by
    intro i
    rcases i with _ | i <;> simp [shape]
  have h : (cells? shape).isSome := isSome_cells?_iff.2 hi
  have hd : (Ty.list (some .int) 4).Denotes .big bytes (.list []) 0 :=
    ⟨shape, [], [], rfl, hn, hi, rfl, .nil, rfl, rfl, rfl⟩
  obtain ⟨hfit, -, hnest⟩ := products_fit_iff hn h
  refine ⟨Codec.unflatten_eq_ok.2 ⟨0, Nat.zero_le _, hd⟩, hn, h, ?_, ?_, (hnest []).2⟩
  · exact mt hfit.1 (by decide)
  · exact mt (hnest []).1.1 (by decide)

/-- The lengths below an empty level are not bounded by the cells that are counted. -/
theorem not_always_products_fit :
    ¬ ∀ shape : List Nat, shape ≠ [] → (∀ n ∈ shape, n < 0x80000000) → (cells? shape).isSome →
      (cells? shape.dropLast).isSome → ∀ l ∈ levels shape, cells l.below < 0x10000000000000000 := by
  intro h
  have hl := h [0, 0x7fffffff, 0x7fffffff, 0x7fffffff] (List.cons_ne_nil _ _) (by simp) (by decide) (by decide)
    ⟨0, [0x7fffffff, 0x7fffffff, 0x7fffffff]⟩ (.head _)
  exact absurd hl (by decide)

end Data

end TagWire
